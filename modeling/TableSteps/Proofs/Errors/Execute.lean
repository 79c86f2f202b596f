import TableSteps.Proofs.Errors.Checks
import TableSteps.Proofs.Pipeline.Append
import TableSteps.Proofs.Step.Adequacy
import TableSteps.Proofs.Step.Execution

/-! # Every error points at its config entry

What is refused when a config is validated or executed is either the shape of the whole config or
one entry of it. Where a name was looked up in vain the error offers the names that are in scope at
that entry, and no others. A run adds little to the check before it: only a join still looks names
up, and a summary may meet a number that is not finite. -/

namespace TableSteps

variable {α : Type}

namespace Filter

theorem points_keyPositions {looksUp : LookUps} {t : Table α} {names : List String}
    (h : ∀ before name after, names = before ++ name :: after →
      looksUp (keyPlace before.length) name t.columns) :
    Points looksUp (keyPositions t 0 names) := by
  refine .walk (fun _ => .ok _) fun before name after hnames hrest => ?_
  unfold keyPositions
  split
  · rename_i hnone
    exact .offer rfl (h before name after hnames) (List.idxOf?_eq_none_iff.mp hnone)
  · split
    · rename_i e he
      rintro _ ⟨rfl⟩
      exact hrest e he
    · exact .ok _

theorem points_referenceTable {config : Filter α} {t? : Option (Table α)} {filter : JoinFilter}
    {references : References α} (h : config.activeJoin? = some filter) :
    Points (config.LooksUp t? references) (referenceTable filter references) := by
  unfold referenceTable
  split
  · exact .plain rfl
  · rename_i name hname
    split
    · exact .ok _
    · rename_i hnone
      exact .offer rfl (.reference h hname) (Dictionary.get?_eq_none_iff.mp hnone)

variable [WireQuantity α] {config : Filter α} {t : Table α} {references : References α}
  {rows : List (Row α)}

theorem points_byNumber {filter : NumberFilter α} (h : config.numeric = some filter) :
    Points (config.LooksUp (some t) references) (byNumber t filter rows) := by
  unfold byNumber
  split
  · rename_i hnone
    exact .offer rfl (.numeric rfl h) (List.idxOf?_eq_none_iff.mp hnone)
  · cases filter with
    | range column min max => exact .ok _
    | top column count ascending => exact .ite (fun _ => .plain rfl) fun _ => .ok _
    | band column low high => exact .ok _

theorem points_byJoin {filter : JoinFilter} (h : config.activeJoin? = some filter) :
    Points (config.LooksUp (some t) references) (byJoin t filter references rows) := by
  refine .bind (points_referenceTable h) fun reference hfound =>
    .bind ?_ fun _ _ => .bind ?_ fun _ _ => .ok _
  · exact points_keyPositions fun _ _ _ hkeys => .key rfl h hkeys
  · obtain ⟨source, hsource, hreference⟩ := referenceTable_eq_ok_iff.mp hfound
    exact points_keyPositions fun _ _ _ hkeys => .referenceKey h hsource hreference hkeys

theorem points_run : Points (config.LooksUp (some t) references) (config.run t references) := by
  refine .bind ?_ fun _ _ => .bind ?_ fun _ _ => .ok _
  · unfold afterNumeric
    split
    · rename_i filter h
      exact points_byNumber h
    · exact .ok _
  · unfold afterJoin
    split
    · rename_i filter h
      exact points_byJoin h
    · exact .ok _

end Filter

variable [WireQuantity α]

/-- A step that passed its check for a table fails over it only where a join looks names up, or at
a formula whose value is not finite. -/
theorem Step.points_run {step : Step α} {t : Table α} {stale : StaleCategories}
    (h : step.check (some t) stale = .ok ()) (references : References α) :
    Points (step.LooksUp (some t) references) (step.run t references) := by
  cases step with
  | aggregate config =>
    obtain ⟨u, hu⟩ := Aggregation.run_of_check h
    rw [run, hu]
    exact .ok _
  | filter config => exact .map Filter.points_run _
  | transform config =>
    obtain ⟨u, hu⟩ := Transform.run_of_check h
    rw [run, hu]
    exact .ok _
  | summary config =>
    by_cases hobstructed : config.Obstructed t
    · obtain ⟨n, name, x, he⟩ := Summary.run_of_obstructed h hobstructed
      rw [run, he]
      exact .plain rfl
    · obtain ⟨out, hout⟩ := Summary.run_of_check h hobstructed
      rw [run, hout]
      exact .ok _

/-! ## What is shown -/

/-- The error says that the config is malformed, or it shows an entry of the config; the names that
it shows as available are those that the shown name was looked up among in vain. -/
def StepError.Explains (kind : StepKind) (config : Json) (t? : Option (Table α))
    (references : References α) (e : StepError) : Prop :=
  (Step.decode (α := α) kind config = .error e ∧
      e.details.get? "reason" = some (.str "malformed_config") ∧
      e.details.get? "available" = none) ∨
    ∃ (step : Step α) (place : Place), Step.decode kind config = .ok step ∧
      e.details.get? "field" = some (.str place.path) ∧
      ∀ shown, e.details.get? "available" = some shown →
        ∃ name names, e.details.get? "value" = some (.str name) ∧ shown = .strings names ∧
          step.LooksUp t? references place name names ∧ name ∉ names

variable {kind : StepKind} {config : Json} {t? : Option (Table α)} {references : References α}
  {e : StepError}

theorem StepError.explains_of_decode (h : Step.decode (α := α) kind config = .error e) :
    e.Explains kind config t? references ∧ e.stepIndex = none := by
  obtain ⟨fault, -, rfl⟩ := mapError_eq_error_iff.mp h
  refine ⟨.inl ⟨h, ?_, ?_⟩, rfl⟩
  · rw [get?_details_of_cause (by decide) (by decide) (by decide)]
    rfl
  · rw [get?_details_available]
    rfl

theorem StepError.Follows.explains {step : Step α} (hstep : Step.decode kind config = .ok step)
    (h : e.Follows (step.LooksUp t? references)) : e.Explains kind config t? references := by
  obtain ⟨place, hplace, hoffers⟩ := h.placed
  refine .inr ⟨step, place, hstep, get?_details_field hplace, fun shown hshown => ?_⟩
  rw [get?_details_available] at hshown
  obtain ⟨⟨name, names⟩, hoffer, rfl⟩ := Option.map_eq_some_iff.mp hshown
  exact ⟨name, names, get?_details_value hoffer, rfl, hoffers name names hoffer⟩

theorem explains_of_validate (h : validate kind config t? = .error e) (references : References α) :
    e.Explains kind config t? references := by
  rw [validate_eq] at h
  rcases bind_eq_error_iff.mp h with h | ⟨step, hstep, h⟩
  · exact (StepError.explains_of_decode h).1
  · exact (Step.points_check references e h).explains hstep

/-- The number of a step is not told by the step itself. -/
theorem explains_of_execute {t : Table α}
    (h : (execute kind t config references).outcome = .error e) :
    e.Explains kind config (some t) references ∧ e.stepIndex = none := by
  rw [outcome_execute] at h
  rcases bind_eq_error_iff.mp h with h | ⟨step, hstep, h⟩
  · exact StepError.explains_of_decode h
  have hfollows : e.Follows (step.LooksUp (some t) references) := by
    rcases bind_eq_error_iff.mp h with h | ⟨_, hcheck, h⟩
    · exact Step.points_check references e h
    · exact Step.points_run hcheck references e h
  exact ⟨hfollows.explains hstep, hfollows.unnumbered⟩

/-! ## The number of the step -/

namespace StepError

theorem get?_details_inStep {n : Nat} {key : String} (h : key ≠ "step_index") :
    (e.inStep n).details.get? key = e.details.get? key := by
  have hkey : (key == "step_index") = false := beq_eq_false_iff_ne.mpr h
  cases hi : e.stepIndex <;>
    simp [details, inStep, hi, Dictionary.get?_ofList, List.lookup_cons, hkey]

theorem get?_details_stepIndex_eq_none (h : e.stepIndex = none) :
    e.details.get? "step_index" = none := by
  obtain ⟨cause, place, row, _⟩ := e
  cases h
  have hcause : cause.details.reverse.lookup "step_index" = none := by
    cases cause <;> simp [Cause.details, List.lookup_cons]
  cases place <;> cases row <;>
    simpa [details, Dictionary.get?_ofList, List.lookup_cons] using hcause

end StepError

/-- Every error of a validation or an execution says that the config is malformed, or points at an
entry of it. Names that it offers are those in scope at that entry; the value it shows was looked up
among them and is none of them. An error of a pipeline is the error of one of its steps, over the
table that the steps before have left, with the number of that step. -/
theorem error_points_at_entry (kind : StepKind) (config : Json) (references : References α) :
    (∀ (t? : Option (Table α)) (e : StepError), validate kind config t? = .error e →
      e.Explains kind config t? references) ∧
    (∀ (t : Table α) (e : StepError), (execute kind t config references).outcome = .error e →
      e.Explains kind config (some t) references) ∧
    ∀ (steps : List PlannedStep) (t : Table α) (e : StepError),
      (Pipeline.run ⟨steps⟩ t references).outcome = .error e →
      ∃ n before step cause, steps[n]? = some step ∧
        (Pipeline.run ⟨steps.take n⟩ t references).outcome = .ok before ∧
        (execute step.kind before.table step.config references).outcome = .error cause ∧
        cause.Explains step.kind step.config (some before.table) references ∧
        e.message = cause.message ∧
        cause.details.get? "step_index" = none ∧
        e.details.get? "step_index" = some (.ofNat n) ∧
        ∀ key, key ≠ "step_index" → e.details.get? key = cause.details.get? key := by
  refine ⟨fun t? e h => explains_of_validate h references,
    fun t e h => (explains_of_execute h).1, fun steps t e h => ?_⟩
  obtain ⟨n, before, step, cause, hn, hbefore, hcause, rfl⟩ := Pipeline.runFrom_eq_error h
  obtain ⟨hexplains, hnumber⟩ := explains_of_execute hcause
  refine ⟨n, before, step, cause, hn, hbefore, hcause, hexplains, rfl,
    StepError.get?_details_stepIndex_eq_none hnumber, ?_, fun key hkey => ?_⟩
  · exact StepError.get?_details_stepIndex (by rw [Nat.zero_add]; rfl)
  · exact StepError.get?_details_inStep hkey

/-- The second operation finds the column that the first has made, but not the one it asks for; a
join finds a reference, but not the one it names. In a pipeline the number of the step is added to
the same details. -/
theorem error_points_at_missing_names :
    let t : Table Float := ⟨["region"], [[.text "North"]]⟩
    let copy (source target : String) : Json :=
      .obj
        [ ("operation_type", .str "add_axis"), ("target_name", .str target),
          ("calculation", .obj [("type", .str "copy"), ("source", .str source)]) ]
    let copies : Json := .obj [("operations", .arr [copy "region" "area", copy "gone" "zone"])]
    let join : Json :=
      .obj [("table_filter", .obj
        [("reference", .str "gone"), ("key_columns", .arr [.str "region"])])]
    let references : References Float := Dictionary.empty.insert "totals" t
    (∃ e, validate .transform copies (some t) = .error e ∧
      e.Explains .transform copies (some t) references ∧
      e.details.get? "field" = some (.str "operations[1].calculation.source") ∧
      e.details.get? "available" = some (.strings ["region", "area"])) ∧
    (∃ e, (execute .filter t join references).outcome = .error e ∧
      e.Explains .filter join (some t) references ∧
      e.details.get? "field" = some (.str "table_filter.reference") ∧
      e.details.get? "available" = some (.strings ["totals"])) ∧
    ∃ (e cause : StepError) (n : Nat),
      (Pipeline.run ⟨[⟨.summary, .obj []⟩, ⟨.filter, join⟩]⟩ t references).outcome = .error e ∧
      e.message = cause.message ∧ cause.details.get? "step_index" = none ∧
      e.details.get? "step_index" = some (.ofNat n) := by
  intro t copy copies join references
  have hcopies : validate .transform copies (some t) =
      .error (.placed (Transform.partPlace 1 "source")
        (.undefinedName "gone" ["region", "area"])) := rfl
  have hjoin : (execute .filter t join references).outcome =
      .error (.placed (Filter.joinPlace "reference")
        (.undefinedName "gone" ["totals"])) := rfl
  have hpipeline :
      (Pipeline.run ⟨[⟨.summary, .obj []⟩, ⟨.filter, join⟩]⟩ t references).outcome =
        .error ((StepError.placed (Filter.joinPlace "reference")
          (.undefinedName "gone" ["totals"])).inStep 1) := rfl
  obtain ⟨hvalidate, -, -⟩ := error_points_at_entry .transform copies references
  obtain ⟨-, hexecute, hrun⟩ := error_points_at_entry .filter join references
  obtain ⟨n, -, -, cause, -, -, -, -, hmessage, hnone, hn, -⟩ := hrun _ t _ hpipeline
  exact ⟨⟨_, hcopies, hvalidate _ _ hcopies, rfl, rfl⟩,
    ⟨_, hjoin, hexecute t _ hjoin, rfl, rfl⟩, _, cause, n, hpipeline, hmessage, hnone, hn⟩

end TableSteps
