import TableSteps.Proofs.Aggregation.Adequacy
import TableSteps.Proofs.Errors.Basic
import TableSteps.Proofs.Transform.Adequacy
import TableSteps.Step.Run

/-! # What the errors of checks point at

Each kind of step has a relation `LooksUp`, which tells where its config names something and among
which names that is looked up: the columns of the table, the columns that a transform has made by
then, the names that were given before. All errors of the checks follow these relations. -/

namespace TableSteps

variable {α : Type}

/-! ## Aggregations -/

namespace Aggregation

/-- Where an aggregation looks a name up, and among which names. -/
inductive LooksUp (config : Aggregation) (t? : Option (Table α)) : LookUps where
  | axis {t : Table α} {before after : List String} {name : String} (ht : t? = some t)
    (h : config.axis = before ++ name :: after) :
    LooksUp config t? (axisPlace before.length) name t.columns
  | column {t : Table α} {before after : List Entry} {entry : Entry} {reduction : Reduction}
    {name : String} (ht : t? = some t) (h : config.entries = before ++ entry :: after)
    (hmethod : entry.method = .reduce reduction) (hname : entry.subject.single? = some name) :
    LooksUp config t? (subjectPlace before.length) name t.columns
  | operand {before after : List Entry} {entry : Entry} {op : Operator} {left right name : String}
    (h : config.entries = before ++ entry :: after) (hmethod : entry.method = .combine op)
    (hpair : entry.subject.pair? = some (left, right)) (hname : name = left ∨ name = right) :
    LooksUp config t? (subjectPlace before.length) name (before.map Entry.name)

theorem points_checkAxis {looksUp : LookUps} {names : List String} :
    Points looksUp (checkAxis 0 [] names) :=
  .walkWith (fun _ _ => True) (fun _ _ => .ok ()) (fun _ _ _ _ _ _ hrest =>
    .bind .checkName fun _ _ => .ite (fun _ => .plain rfl) fun _ => hrest _ trivial) trivial

variable {config : Aggregation} {t? : Option (Table α)} {t : Table α}

theorem points_checkSubject {s : Scope Unit} {before after : List Entry} {entry : Entry}
    (h : config.entries = before ++ entry :: after) (hs : s.names = before.map Entry.name) :
    Points (config.LooksUp t?) (checkSubject s before.length entry) := by
  unfold checkSubject
  split
  · split
    · exact .ok ()
    · exact .plain rfl
  · rename_i op hmethod
    split
    · rename_i left right hpair
      refine .map (.pair fun name hname => ?_) _
      rw [hs]
      exact .operand h hmethod hpair hname
    · exact .plain rfl

/-- The scope has the names of the entries behind. -/
theorem points_checkEntries :
    Points (config.LooksUp t?) (checkEntries config.axis 0 .empty config.entries) := by
  refine .walkWith (fun before s => s.names = before.map Entry.name) (fun _ s => .ok s) ?_ rfl
  intro before entry after s h hs hrest
  refine .bind (.bind .checkName fun _ _ => .ite (fun _ => .plain rfl) fun _ =>
    .bind (points_checkSubject h hs) fun _ _ => .define ()) fun u hu => hrest u ?_
  rw [Scope.names_define (checkEntry_eq_ok hu).2.2, hs, List.map_append]
  rfl

theorem points_checkAxisColumns :
    Points (config.LooksUp (some t)) (checkAxisColumns t 0 config.axis) :=
  .walk (fun _ => .ok ()) fun _ _ _ h hrest => .bind (.checkColumn (.axis rfl h)) fun _ _ => hrest

variable [Quantity α]

theorem points_checkEntryColumns :
    Points (config.LooksUp (some t)) (checkEntryColumns t 0 config.entries) := by
  refine .walk (fun _ => .ok ()) fun before entry after h hrest => ?_
  rw [checkEntryColumns]
  split
  · rename_i reduction column hmethod hsingle
    exact .bind (.checkFor (.column rfl h hmethod hsingle) _) fun _ _ => hrest
  · exact hrest

theorem points_check : Points (config.LooksUp t?) (config.check t?) := by
  refine .bind (.bind points_checkAxis fun _ _ => .bind points_checkEntries fun _ _ => .ok ())
    fun _ _ => ?_
  cases t? with
  | none => exact .ok ()
  | some t => exact .bind points_checkAxisColumns fun _ _ => points_checkEntryColumns

end Aggregation

/-! ## Filters -/

namespace Filter

/-- Where a filter looks a name up, and among which names. The last two are looked up only when the
filter runs: a reference by its name, and the key columns in it. -/
inductive LooksUp (config : Filter α) (t? : Option (Table α)) (references : References α) :
    LookUps where
  | category {t : Table α} {categories : Dictionary (List Json)} {name : String} (ht : t? = some t)
    (h : config.categories = some categories) (hname : name ∈ categories.keys) :
    LooksUp config t? references (categoryPlace name) name t.columns
  | numeric {t : Table α} {filter : NumberFilter α} (ht : t? = some t)
    (h : config.numeric = some filter) :
    LooksUp config t? references (numericPlace "column") filter.column t.columns
  | key {t : Table α} {filter : JoinFilter} {before after : List String} {name : String}
    (ht : t? = some t) (h : config.activeJoin? = some filter)
    (hkeys : filter.keyColumns = before ++ name :: after) :
    LooksUp config t? references (keyPlace before.length) name t.columns
  | reference {filter : JoinFilter} {name : String} (h : config.activeJoin? = some filter)
    (hname : filter.reference = some name) :
    LooksUp config t? references (joinPlace "reference") name references.keys
  | referenceKey {reference : Table α} {filter : JoinFilter} {source name : String}
    {before after : List String} (h : config.activeJoin? = some filter)
    (hsource : filter.reference = some source)
    (hreference : references.get? source = some reference)
    (hkeys : filter.keyColumns = before ++ name :: after) :
    LooksUp config t? references (keyPlace before.length) name reference.columns

variable {config : Filter α} {t? : Option (Table α)} {t : Table α} {references : References α}
  {looksUp : LookUps}

theorem points_checkCategories {entries : List (String × List Json)} :
    Points looksUp (checkCategories entries) := by
  induction entries with
  | nil => exact .ok ()
  | cons category rest ih =>
    refine .bind ?_ fun _ _ => ih
    unfold checkCategory
    split
    · exact .plain rfl
    · exact .ok ()

theorem points_checkJoin {filter : JoinFilter} : Points looksUp (checkJoin filter) :=
  .ite (fun _ => .plain rfl) fun _ => .ite (fun _ => .ok ()) fun _ => .plain rfl

theorem points_checkCategoryColumns {categories : Dictionary (List Json)}
    (h : config.categories = some categories) {names : List String}
    (hnames : ∀ name ∈ names, name ∈ categories.keys) :
    Points (config.LooksUp (some t) references) (checkCategoryColumns t names) := by
  induction names with
  | nil => exact .ok ()
  | cons name rest ih =>
    obtain ⟨hname, hrest⟩ := List.forall_mem_cons.mp hnames
    exact .bind (.checkColumn (.category rfl h hname)) fun _ _ => ih hrest

theorem points_checkKeyColumns {filter : JoinFilter} (h : config.activeJoin? = some filter) :
    Points (config.LooksUp (some t) references) (checkKeyColumns t 0 filter.keyColumns) :=
  .walk (fun _ => .ok ()) fun _ _ _ hkeys hrest =>
    .bind (.checkColumn (.key rfl h hkeys)) fun _ _ => hrest

variable [WireQuantity α]

theorem points_checkPercentile {name : String} {percentile : α} :
    Points looksUp (checkPercentile name percentile) :=
  .ite (fun _ => .ok ()) fun _ => .plain rfl

theorem points_checkNumeric {filter : NumberFilter α} : Points looksUp (checkNumeric filter) := by
  refine .bind .checkName fun _ _ => ?_
  cases filter with
  | range column min max =>
    simp only [checkNumbers]
    split
    · exact .ite (fun _ => .plain rfl) fun _ => .ok ()
    · exact .ok ()
  | top column count ascending => exact .ite (fun _ => .plain rfl) fun _ => .ok ()
  | band column low high =>
    exact .bind points_checkPercentile fun _ _ => .bind points_checkPercentile fun _ _ =>
      .ite (fun _ => .plain rfl) fun _ => .ok ()

/-- The three parts are checked one after another. -/
theorem checkShape_eq : config.checkShape = (do
    config.categories.elim (.ok ()) fun categories => checkCategories categories.entries
    config.numeric.elim (.ok ()) checkNumeric
    config.activeJoin?.elim (.ok ()) checkJoin) := by
  unfold checkShape
  cases config.categories <;> cases config.numeric <;> cases config.activeJoin? <;> rfl

theorem checkColumns_eq {stale : StaleCategories} : config.checkColumns t stale = (do
    config.categories.elim (.ok ()) fun categories =>
      if stale = .refused then checkCategoryColumns t categories.keys else .ok ()
    config.numeric.elim (.ok ()) fun filter => t.checkNumeric (numericPlace "column") filter.column
    config.activeJoin?.elim (.ok ()) fun filter => checkKeyColumns t 0 filter.keyColumns) := by
  unfold checkColumns
  cases config.categories <;> cases stale <;> cases config.numeric <;>
    cases config.activeJoin? <;> rfl

theorem points_checkShape : Points looksUp config.checkShape := by
  rw [checkShape_eq]
  exact .bind (.elim fun _ _ => points_checkCategories) fun _ _ =>
    .bind (.elim fun _ _ => points_checkNumeric) fun _ _ => .elim fun _ _ => points_checkJoin

theorem points_checkColumns {stale : StaleCategories} :
    Points (config.LooksUp (some t) references) (config.checkColumns t stale) := by
  rw [checkColumns_eq]
  refine .bind (.elim fun categories h => ?_) fun _ _ => .bind (.elim fun filter h => ?_) fun _ _ =>
    .elim fun filter h => ?_
  · exact .ite (fun _ => points_checkCategoryColumns h fun _ hname => hname) fun _ => .ok ()
  · exact .checkNumeric (.numeric rfl h)
  · exact points_checkKeyColumns h

theorem points_check {stale : StaleCategories} :
    Points (config.LooksUp t? references) (config.check t? stale) := by
  refine .bind points_checkShape fun _ _ => ?_
  cases t? with
  | none => exact .ok ()
  | some t => exact points_checkColumns

end Filter

/-! ## Transforms -/

namespace Transform

/-- Where a transform looks a name up: among the columns that the operations before have left. -/
inductive LooksUp [Quantity α] (config : Transform α) (t? : Option (Table α)) : LookUps where
  | source {t u : Table α} {before after : List (Operation α)} {o : Operation α} {name : String}
    (ht : t? = some t) (h : config.operations = before ++ o :: after)
    (hbefore : steps 0 before t = .ok u)
    (hsource : o.calculation = .copy name ∨ ∃ targets, o.calculation = .mapping name targets) :
    LooksUp config t? (partPlace before.length "source") name u.columns
  | left {t u : Table α} {before after : List (Operation α)} {o : Operation α} {name : String}
    {op : Operator} {right : Operand α} (ht : t? = some t)
    (h : config.operations = before ++ o :: after) (hbefore : steps 0 before t = .ok u)
    (hleft : o.calculation = .formula (.named name) op right) :
    LooksUp config t? (partPlace before.length "left") name u.columns
  | right {t u : Table α} {before after : List (Operation α)} {o : Operation α} {name : String}
    {op : Operator} {left : Operand α} (ht : t? = some t)
    (h : config.operations = before ++ o :: after) (hbefore : steps 0 before t = .ok u)
    (hright : o.calculation = .formula left op (.named name)) :
    LooksUp config t? (partPlace before.length "right") name u.columns

theorem points_checkTargets {looksUp : LookUps} {operations : List (Operation α)} :
    Points looksUp (checkTargets 0 operations) :=
  .walk (fun _ => .ok ()) fun _ _ _ _ hrest => .bind .checkName fun _ _ => hrest

theorem points_checkSource {looksUp : LookUps} {columns : List String} {place : Place}
    {name : String} (h : looksUp place name columns) :
    Points looksUp (checkSource columns place name) :=
  .ite (fun _ => .ok ()) fun hnot => .offer rfl h fun hmem => hnot (by simpa using hmem)

variable [Quantity α] {config : Transform α} {t? : Option (Table α)} {t u : Table α}

theorem points_checkOperand {looksUp : LookUps} {columns : List String} {place : Place}
    {operand : Operand α} (h : ∀ name, operand = .named name → looksUp place name columns) :
    Points looksUp (checkOperand columns place operand) := by
  cases operand with
  | literal x => exact .ok ()
  | named name =>
    exact .ite (fun _ => .ok ()) fun hnot => .offer rfl (h name rfl) fun hmem =>
      hnot (by simp [hmem])

theorem points_checkCalculation {before after : List (Operation α)} {o : Operation α}
    (h : config.operations = before ++ o :: after) (hbefore : steps 0 before t = .ok u) :
    Points (config.LooksUp (some t)) (checkCalculation u.columns before.length o.calculation) := by
  cases hcalculation : o.calculation with
  | constant value => exact .ok ()
  | copy name => exact points_checkSource (.source rfl h hbefore (.inl hcalculation))
  | mapping name targets =>
    exact points_checkSource (.source rfl h hbefore (.inr ⟨targets, hcalculation⟩))
  | formula left op right =>
    refine .bind (points_checkOperand fun name hleft => ?_) fun _ _ =>
      points_checkOperand fun name hright => ?_
    · exact .left rfl h hbefore (hleft ▸ hcalculation)
    · exact .right rfl h hbefore (hright ▸ hcalculation)

theorem steps_concat {before : List (Operation α)} {o : Operation α} :
    ∀ {i : Nat} {t : Table α}, steps i (before ++ [o]) t = (do
      let u ← steps i before t
      step u (i + before.length) o) := by
  induction before with
  | nil =>
    intro i t
    simp only [List.nil_append, steps, ok_bind, List.length_nil, Nat.add_zero]
    cases step t i o <;> rfl
  | cons first rest ih =>
    intro i t
    simp only [List.cons_append, steps, List.length_cons]
    cases step t i first with
    | error e => rfl
    | ok u => simp only [ok_bind, ih, Nat.add_assoc, Nat.add_comm 1]

/-- The columns that the check goes on with are those of the table that the operations behind have
left. -/
theorem points_checkOperations :
    Points (config.LooksUp (some t)) (checkOperations 0 t.columns config.operations) := by
  refine .walkWith (fun before columns => ∃ u, steps 0 before t = .ok u ∧ u.columns = columns)
    (fun _ _ => .ok ()) ?_ ⟨t, rfl, rfl⟩
  rintro before o after _ h ⟨u, hbefore, rfl⟩ hrest
  refine .bind (points_checkCalculation h hbefore) fun _ hcheck => ?_
  -- The check makes no table, but an operation that passes it can be run to get one.
  obtain ⟨v, hstep, hcolumns⟩ := step_of_check hcheck
  refine hrest _ ⟨v, ?_, hcolumns⟩
  rw [steps_concat, hbefore, ok_bind, Nat.zero_add, hstep]

theorem points_check : Points (config.LooksUp t?) (config.check t?) := by
  refine .bind points_checkTargets fun _ _ => ?_
  cases t? with
  | none => exact .ok ()
  | some t => exact points_checkOperations

end Transform

/-! ## Charts -/

namespace ChartSpec

variable [WireQuantity α] {config : ChartSpec} {looksUp : LookUps} {t : Table α}

theorem points_kind : Points looksUp config.kind := by
  unfold kind
  split
  · exact .ok _
  · exact .plain rfl

/-- A fault stands at its option, and offers nothing. -/
theorem follows_fault {kind : ChartKind} {f : ChartFault} :
    (config.fault kind f).Follows looksUp :=
  ⟨rfl, _, rfl, nofun⟩

theorem points_build : Points looksUp (config.build t) := by
  refine .bind points_kind fun _ _ => .bind (fun e he => ?_) fun _ _ => .ok _
  obtain ⟨f, -, rfl⟩ := mapError_eq_error_iff.mp he
  exact follows_fault

theorem points_checkOptions {kind : ChartKind} : Points looksUp (config.checkOptions kind) := by
  unfold checkOptions
  split
  · rintro _ ⟨rfl⟩
    exact follows_fault
  · exact .ok ()

theorem points_check {t? : Option (Table α)} : Points looksUp (config.check t?) := by
  refine .bind points_kind fun _ _ => .bind points_checkOptions fun _ _ => ?_
  cases t? with
  | none => exact .ok ()
  | some t => exact .map points_build _

end ChartSpec

/-! ## Summaries -/

namespace Summary

variable [WireQuantity α]

/-- Where a summary looks a name up, and among which names. -/
inductive LooksUp (config : Summary α) (t? : Option (Table α)) : LookUps where
  | column {t : Table α} {before after : List (SummaryFormula α)} {f : SummaryFormula α}
    {reduction : Reduction} {name : String} (ht : t? = some t)
    (h : config.formulaList = before ++ f :: after) (hmethod : f.method = .reduce reduction)
    (hname : f.column? = some name) :
    LooksUp config t? (partPlace before.length "target_subject") name t.columns
  | text {t : Table α} {before after : List (SummaryFormula α)} {f : SummaryFormula α}
    {text name : String} {e : Formula.Expression α} (ht : t? = some t)
    (h : config.formulaList = before ++ f :: after) (hmethod : f.method = .arithmetic)
    (htext : f.text = some text) (hparse : Formula.parse text = .ok e) (hname : name ∈ e.columns) :
    LooksUp config t? (partPlace before.length "formula_text") name t.columns
  | operand {before after : List (SummaryFormula α)} {f : SummaryFormula α} {op : Operator}
    {left right name : String} (h : config.formulaList = before ++ f :: after)
    (hmethod : f.method = .combine op) (hoperands : f.operands? = some (left, right))
    (hname : name = left ∨ name = right) :
    LooksUp config t? (partPlace before.length "target_subject") name
      (before.map SummaryFormula.boundName)

variable {config : Summary α} {t? : Option (Table α)} {t : Table α} {looksUp : LookUps}

theorem points_parseText {place : Place} {text? : Option String} :
    Points looksUp (parseText (α := α) place text?) := by
  unfold parseText
  split
  · exact .plain rfl
  · split
    · exact .ok _
    · exact .plain rfl

theorem points_checkSubject {s : Scope Unit} {before after : List (SummaryFormula α)}
    {f : SummaryFormula α} (h : config.formulaList = before ++ f :: after)
    (hs : s.names = before.map SummaryFormula.boundName) :
    Points (config.LooksUp t?) (checkSubject s before.length f) := by
  unfold checkSubject
  split
  · split
    · exact .ok ()
    · exact .plain rfl
  · exact .map points_parseText _
  · rename_i op hmethod
    split
    · rename_i left right hoperands
      refine .map (.pair fun name hname => ?_) _
      rw [hs]
      exact .operand h hmethod hoperands hname
    · exact .plain rfl

/-- The scope has the names of the formulas behind. -/
theorem points_checkFormulas :
    Points (config.LooksUp t?) (checkFormulas 0 .empty config.formulaList) := by
  refine .walkWith (fun before s => s.names = before.map SummaryFormula.boundName)
    (fun _ s => .ok s) ?_ rfl
  intro before f after s h hs hrest
  refine .bind (.bind (.ite (fun _ => .ok ()) fun _ => .plain rfl) fun _ _ =>
    .bind (points_checkSubject h hs) fun _ _ => .define ()) fun u hu => hrest u ?_
  obtain ⟨-, -, hu⟩ := bind_eq_ok_iff.mp hu
  obtain ⟨-, -, hu⟩ := bind_eq_ok_iff.mp hu
  rw [Scope.names_define (mapError_eq_ok_iff.mp hu), hs, List.map_append]
  rfl

theorem points_checkTextColumns {place : Place} {names : List String}
    (h : ∀ name ∈ names, looksUp place name t.columns) :
    Points looksUp (checkTextColumns t place names) := by
  induction names with
  | nil => exact .ok ()
  | cons name rest ih =>
    obtain ⟨hname, hrest⟩ := List.forall_mem_cons.mp h
    refine .ite (fun _ => .bind (.checkNumeric hname) fun _ _ => ih hrest) fun hnot =>
      .bind (.offer rfl hname fun hmem => ?_) fun _ _ => ih hrest
    exact hnot (Table.hasColumn_iff.mpr hmem)

theorem points_checkFormulaColumns {before after : List (SummaryFormula α)}
    {f : SummaryFormula α} (h : config.formulaList = before ++ f :: after) :
    Points (config.LooksUp (some t)) (checkFormulaColumns t before.length f) := by
  unfold checkFormulaColumns
  split
  · rename_i reduction hmethod
    split
    · rename_i column hcolumn
      exact .checkFor (.column rfl h hmethod hcolumn) _
    · exact .ok ()
  · rename_i hmethod
    split
    · rename_i e hparse
      obtain ⟨text, htext, hparse⟩ := Option.map_eq_some_iff.mp hparse
      exact points_checkTextColumns fun name hname => .text rfl h hmethod htext hparse hname
    · exact .ok ()
  · exact .ok ()

theorem points_checkAllColumns :
    Points (config.LooksUp (some t)) (checkAllColumns t 0 config.formulaList) :=
  .walk (fun _ => .ok ()) fun _ _ _ h hrest =>
    .bind (points_checkFormulaColumns h) fun _ _ => hrest

theorem points_check : Points (config.LooksUp t?) (config.check t?) := by
  refine .bind (.bind points_checkFormulas fun _ _ => .ok ()) fun _ _ => .bind ?_ fun _ _ => ?_
  · unfold checkChart
    split
    · exact ChartSpec.points_check
    · exact .ok ()
  · cases t? with
    | none => exact .ok ()
    | some t => exact points_checkAllColumns

end Summary

/-! ## All kinds of step -/

namespace Step

variable [WireQuantity α]

/-- Where a step looks a name up, and among which names. -/
def LooksUp (step : Step α) (t? : Option (Table α)) (references : References α) : LookUps :=
  match step with
  | .aggregate config => config.LooksUp t?
  | .filter config => config.LooksUp t? references
  | .transform config => config.LooksUp t?
  | .summary config => config.LooksUp t?

theorem points_check {step : Step α} {t? : Option (Table α)} {stale : StaleCategories}
    (references : References α) :
    Points (step.LooksUp t? references) (step.check t? stale) := by
  cases step with
  | aggregate config => exact Aggregation.points_check
  | filter config => exact Filter.points_check
  | transform config => exact Transform.points_check
  | summary config => exact Summary.points_check

end Step

end TableSteps
