import TableSteps.Proofs.Indexing.Chart
import TableSteps.Summary.Check

/-! # Summaries read by position

A written formula reads a row at the positions to which its columns were bound; a formula with an
unbound column is refused before it reads any. The other parts of a summary read whole columns,
results by their names, and what its chart reads. -/

namespace TableSteps

open Formula (BadCell Expression)

/-! ## Written formulas -/

section Formula

variable {α : Type} [Quantity α]

namespace Guarded

/-- The value of a tree in one row, the cells read where the columns stand. -/
def treeValue (columns : List String) (row : Row α) : Expression α → Guarded (BadCell α) (Option α)
  | .number x => settle (.ok (some x))
  | .column name => do
    let cell ← look (Indexed.item row (columns.idxOf name))
    settle (Formula.leafValue name cell)
  | .negate operand => do
    let value ← treeValue columns row operand
    settle (.ok (value.map fun x => -x))
  | .binary op left right => do
    let x ← treeValue columns row left
    let y ← treeValue columns row right
    settle (.ok (op.evalOption x y))

/-- A row as wide as the columns has a cell for every bound column. -/
theorem treeValue_eq_settle {columns : List String} {row : Row α}
    (hrow : row.length = columns.length) {e : Expression α}
    (he : ∀ name ∈ e.leafNames, name ∈ columns) :
    treeValue columns row e = settle (Formula.rowValue columns e row) := by
  induction e with
  | number x => rfl
  | column name =>
    have hlt : columns.idxOf name < row.length := by
      rw [hrow]
      exact List.idxOf_lt_length_of_mem (he name (by simp [Expression.leafNames]))
    rw [treeValue, Indexed.item_getD hlt Cell.empty, look_ok, settle_ok_bind]
    rfl
  | negate operand ih =>
    rw [treeValue, ih he]
    simp only [Formula.rowValue, Expression.value]
    cases operand.value (Formula.cellOf columns row) <;> rfl
  | binary op left right ihl ihr =>
    have hboth := List.forall_mem_append.mp he
    rw [treeValue, ihl hboth.1, ihr hboth.2]
    simp only [Formula.rowValue, Expression.value]
    cases left.value (Formula.cellOf columns row) with
    | error e => rfl
    | ok x => cases right.value (Formula.cellOf columns row) <;> rfl

end Guarded

omit [Quantity α] in
theorem Formula.mem_of_bind {place : Place} {columns : List String} {e : Expression α}
    (h : Formula.bind place columns e = .ok ()) : ∀ name ∈ e.leafNames, name ∈ columns := by
  intro name hname
  unfold Formula.bind Formula.unboundColumn? at h
  split at h
  · cases h
  · rename_i hnone
    have hbound := List.find?_eq_none.mp hnone name (List.mem_eraseDups.mpr hname)
    simpa using hbound

end Formula

variable {α : Type} [WireQuantity α] {t : Table α}

namespace Guarded

/-- The values of all rows added up, nulls passed over. The total so far comes first. -/
def sumFrom (columns : List String) (e : Expression α) :
    Nat → α → List (Row α) → Guarded StepError α
  | _, total, [] => settle (.ok total)
  | i, total, row :: rest => do
    let value? ← mapError (fun b => b.error.inRow i) (treeValue columns row e)
    match value? with
    | none => sumFrom columns e (i + 1) total rest
    | some x => sumFrom columns e (i + 1) (total + x) rest

/-- The sum of a written formula over a table. -/
def textValue (t : Table α) (place : Place) (text? : Option String) : Guarded StepError α := do
  let e ← settle (Summary.parseText place text?)
  settle (Formula.bind place t.columns e)
  mapError (.moveTo place) (sumFrom t.columns e 0 Quantity.zero t.rows)

theorem sumFrom_eq_settle {columns : List String} {e : Expression α}
    (he : ∀ name ∈ e.leafNames, name ∈ columns) {rows : List (Row α)} :
    ∀ {i : Nat} {total : α}, (∀ row ∈ rows, row.length = columns.length) →
      sumFrom columns e i total rows = settle (Formula.sumFrom columns e i total rows) := by
  induction rows with
  | nil =>
    intro i total _
    rfl
  | cons row rest ih =>
    intro i total h
    obtain ⟨hrow, hrest⟩ := List.forall_mem_cons.mp h
    rw [sumFrom, treeValue_eq_settle hrow he, mapError_settle, Formula.sumFrom]
    cases Formula.rowValue columns e row with
    | error b => rfl
    | ok value? =>
      cases value? with
      | none => exact ih hrest
      | some x => exact ih hrest

theorem textValue_eq_settle (ht : t.WellFormed) (place : Place) (text? : Option String) :
    textValue t place text? = settle (Summary.textValue t place text?) := by
  refine settle_bind fun e _ => settle_bind fun _ hbind => ?_
  rw [sumFrom_eq_settle (Formula.mem_of_bind hbind) ht.width]
  rfl

/-! ## Formulas in order -/

/-- The value of formula `i` before it is scaled. -/
def rawValue (t : Table α) (scope : Scope (Option α)) (i : Nat) (f : SummaryFormula α) :
    Guarded StepError (Option α) :=
  match f.method with
  | .reduce reduction =>
    match f.column? with
    | none => settle (refuse (Summary.partPlace i "target_subject") (.unusableSubject .oneColumn))
    | some column => do
      let cells? ← look (Indexed.columnValues? t column)
      match cells? with
      | none =>
        settle (refuse (Summary.partPlace i "target_subject") (.unknownColumn column t.columns))
      | some cells => settle (.ok ((Tally.ofCells cells).result reduction))
  | .arithmetic => do
    let x ← textValue t (Summary.partPlace i "formula_text") f.text
    settle (.ok (some x))
  | .combine op =>
    match f.operands? with
    | none => settle (refuse (Summary.partPlace i "target_subject") (.unusableSubject .twoFormulas))
    | some (left, right) => do
      let (x, y) ← pair scope (Summary.partPlace i "target_subject") left right
      settle (.ok (op.evalOption x y))

def evaluateFormulas (t : Table α) :
    Nat → Scope (Option α) → List (SummaryFormula α) → Guarded StepError (Scope (Option α))
  | _, scope, [] => settle (.ok scope)
  | i, scope, f :: rest => do
    let raw ← rawValue t scope i f
    let value := Summary.scaled f raw
    settle (Summary.checkFinite i f value)
    let scope ← settle
      ((scope.define f.boundName value).mapError (.moveTo (Summary.partPlace i "name")))
    evaluateFormulas t (i + 1) scope rest

def runFormulas (t : Table α) (fs : List (SummaryFormula α)) :
    Guarded StepError (List (FormulaValue α)) := do
  let scope ← evaluateFormulas t 0 .empty fs
  settle (.ok (Summary.results scope fs))

/-- What the parts of a summary that are asked for give. -/
def asked {β γ : Type} (f : β → Guarded StepError γ) : Option β → Guarded StepError (Option γ)
  | none => settle (.ok none)
  | some x => do
    let y ← f x
    settle (.ok (some y))

def summarize (config : Summary α) (t : Table α) : Guarded StepError (StepOutput α) := do
  let formulas ← asked (runFormulas t) config.formulas
  let chart ← asked (fun chart => buildChart chart t) config.chart
  settle (.ok ⟨if config.includeTable then some t else none, chart, formulas⟩)

theorem rawValue_eq_settle (ht : t.WellFormed) (scope : Scope (Option α)) (i : Nat)
    (f : SummaryFormula α) :
    rawValue t scope i f = settle (Summary.rawValue t scope i f) := by
  cases hm : f.method with
  | reduce reduction =>
    cases hc : f.column? with
    | none => simp only [rawValue, Summary.rawValue, hm, hc]
    | some column =>
      simp only [rawValue, Summary.rawValue, hm, hc, Indexed.columnValues?_eq_ok ht, look_ok,
        settle_ok_bind]
      cases t.columnValues? column <;> rfl
  | arithmetic =>
    simp only [rawValue, Summary.rawValue, hm, textValue_eq_settle ht]
    cases Summary.textValue t (Summary.partPlace i "formula_text") f.text <;> rfl
  | combine op =>
    cases hp : f.operands? with
    | none => simp only [rawValue, Summary.rawValue, hm, hp]
    | some names =>
      simp only [rawValue, Summary.rawValue, hm, hp, pair_eq_settle]
      exact settle_bind fun _ _ => rfl

theorem evaluateFormulas_eq_settle (ht : t.WellFormed) {fs : List (SummaryFormula α)} :
    ∀ {i : Nat} {scope : Scope (Option α)},
      evaluateFormulas t i scope fs = settle (Summary.evaluate t i scope fs) := by
  induction fs with
  | nil =>
    intro i scope
    rfl
  | cons f rest ih =>
    intro i scope
    rw [evaluateFormulas, rawValue_eq_settle ht]
    exact settle_bind fun raw _ => settle_bind fun _ _ => settle_bind fun scope _ => ih

theorem runFormulas_eq_settle (ht : t.WellFormed) (fs : List (SummaryFormula α)) :
    runFormulas t fs = settle (Summary.runFormulas t fs) := by
  rw [runFormulas, evaluateFormulas_eq_settle ht]
  exact settle_bind fun scope _ => rfl

theorem asked_some {β γ : Type} (f : β → Guarded StepError γ) {x : β} {y : Checked γ}
    (h : f x = settle y) : asked f (some x) = settle (y.map some) := by
  rw [asked, h]
  cases y <;> rfl

theorem summarize_eq_settle (ht : t.WellFormed) (config : Summary α) :
    summarize config t = settle (config.run t) := by
  unfold summarize Summary.run
  cases config.formulas with
  | none =>
    cases config.chart with
    | none => rfl
    | some chart =>
      rw [asked_some (fun chart => buildChart chart t) (buildChart_eq_settle ht chart)]
      exact settle_bind fun formulas _ => settle_bind fun chart _ => rfl
  | some fs =>
    rw [asked_some (runFormulas t) (runFormulas_eq_settle ht fs)]
    cases config.chart with
    | none => exact settle_bind fun formulas _ => rfl
    | some chart =>
      rw [asked_some (fun chart => buildChart chart t) (buildChart_eq_settle ht chart)]
      exact settle_bind fun formulas _ => settle_bind fun chart _ => rfl

/-! ## The check -/

/-- The columns of a written formula. -/
def checkTextColumns (t : Table α) (place : Place) : List String → Guarded StepError Unit
  | [] => settle (.ok ())
  | name :: rest => do
    if t.hasColumn name then checkNumeric t place name
    else settle (refuse place (.undefinedName name t.columns))
    checkTextColumns t place rest

/-- The columns that one formula reads. -/
def checkFormulaColumns (t : Table α) (i : Nat) (f : SummaryFormula α) : Guarded StepError Unit :=
  match f.method with
  | .reduce reduction =>
    match f.column? with
    | some column =>
      checkFor t reduction.needsNumbers (Summary.partPlace i "target_subject") column
    | none => settle (.ok ())
  | .arithmetic =>
    match f.text.map (Formula.parse (α := α)) with
    | some (.ok e) => checkTextColumns t (Summary.partPlace i "formula_text") e.columns
    | _ => settle (.ok ())
  | .combine _ => settle (.ok ())

def checkAllColumns (t : Table α) (i : Nat) : List (SummaryFormula α) → Guarded StepError Unit
  | [] => settle (.ok ())
  | f :: rest => do
    checkFormulaColumns t i f
    checkAllColumns t (i + 1) rest

def checkSummary (config : Summary α) (t : Table α) : Guarded StepError Unit := do
  settle config.checkFormulaShapes
  match config.chart with
  | some chart => checkChart chart t
  | none => settle (.ok ())
  checkAllColumns t 0 config.formulaList

theorem checkTextColumns_eq_settle (ht : t.WellFormed) {place : Place} {names : List String} :
    checkTextColumns t place names = settle (Summary.checkTextColumns t place names) := by
  induction names with
  | nil => rfl
  | cons name rest ih =>
    rw [checkTextColumns, Summary.checkTextColumns, ih]
    cases t.hasColumn name <;> simp [checkNumeric_eq_settle ht]

theorem checkFormulaColumns_eq_settle (ht : t.WellFormed) (i : Nat) (f : SummaryFormula α) :
    checkFormulaColumns t i f = settle (Summary.checkFormulaColumns t i f) := by
  unfold checkFormulaColumns Summary.checkFormulaColumns
  cases f.method with
  | reduce reduction =>
    cases f.column? with
    | none => rfl
    | some column => exact checkFor_eq_settle ht ..
  | arithmetic =>
    cases f.text.map (Formula.parse (α := α)) with
    | none => rfl
    | some parsed =>
      cases parsed with
      | error e => rfl
      | ok e => exact checkTextColumns_eq_settle ht
  | combine op => rfl

theorem checkAllColumns_eq_settle (ht : t.WellFormed) {fs : List (SummaryFormula α)} :
    ∀ {i : Nat}, checkAllColumns t i fs = settle (Summary.checkAllColumns t i fs) := by
  induction fs with
  | nil => exact rfl
  | cons f rest ih =>
    intro i
    rw [checkAllColumns, checkFormulaColumns_eq_settle ht]
    exact settle_bind fun _ _ => ih

theorem checkSummary_eq_settle (ht : t.WellFormed) (config : Summary α) :
    checkSummary config t = settle (config.check (some t)) := by
  refine settle_bind fun _ _ => ?_
  rw [checkAllColumns_eq_settle ht]
  cases hchart : config.chart with
  | none => simp [Summary.checkChart, hchart]
  | some chart => simp [Summary.checkChart, hchart, checkChart_eq_settle ht]

end Guarded
end TableSteps
