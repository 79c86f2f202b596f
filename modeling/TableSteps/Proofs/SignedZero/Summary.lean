import TableSteps.Proofs.SignedZero.Chart
import TableSteps.Proofs.Summary.Reference

/-! # Summaries and signed zeros

The formulas of a summary reduce columns, evaluate trees row by row and combine results; a zero of
either sign gives the same each time, and the same verdict on whether a value is finite. So only the
chart of a summary can tell zeros apart. -/

namespace TableSteps

open Quantity (Agree)
open SignedZeroLaws

variable {α : Type} [WireQuantity α] [SignedZeroLaws α] {t u : Table α}

/-! ## Trees -/

namespace Formula

omit [SignedZeroLaws α] in
theorem agree_leafValue (name : String) {c d : Cell α} (h : c.Agree d) :
    Alike (Option.Rel Agree) (leafValue name c) (leafValue name d) := by
  have hnumber := h.asNumber
  unfold leafValue
  rw [h.isMissing_eq]
  split
  · exact .ok .none
  · generalize c.asNumber = x?, d.asNumber = y? at hnumber
    cases hnumber with
    | none => exact .error _ _
    | some hxy => exact .ok (.some hxy)

theorem agree_value {cellOf cellOf' : String → Cell α}
    (h : ∀ name, (cellOf name).Agree (cellOf' name)) (e : Expression α) :
    Alike (Option.Rel Agree) (e.value cellOf) (e.value cellOf') := by
  induction e with
  | number x => exact .ok (.some (.refl x))
  | column name => exact agree_leafValue name (h name)
  | negate operand ih =>
    rw [Expression.value, Expression.value]
    generalize operand.value cellOf = x, operand.value cellOf' = y at ih
    cases ih with
    | error e e' => exact .error e e'
    | ok hv =>
      cases hv with
      | none => exact .ok .none
      | some hxy => exact .ok (.some (agree_neg hxy))
  | binary op left right ihl ihr =>
    rw [Expression.value, Expression.value]
    generalize left.value cellOf = x, left.value cellOf' = x' at ihl
    generalize right.value cellOf = y, right.value cellOf' = y' at ihr
    cases ihl with
    | error e e' => exact .error e e'
    | ok hx =>
      cases ihr with
      | error e e' => exact .error e e'
      | ok hy => exact .ok (op.rel_evalOption hx hy)

theorem agree_sumFrom (columns : List String) (e : Expression α) {rows rows' : List (Row α)}
    (h : List.Forall₂ (List.Forall₂ Cell.Agree) rows rows') :
    ∀ {i : Nat} {total total' : α}, Agree total total' →
      Alike Agree (sumFrom columns e i total rows) (sumFrom columns e i total' rows') := by
  induction h with
  | nil => exact fun htotal => .ok htotal
  | @cons row row' rest rest' hrow _ ih =>
    intro i total total' htotal
    have hvalue : Alike (Option.Rel Agree) (rowValue columns e row) (rowValue columns e row') :=
      agree_value (fun name => Cell.agree_cellAt hrow _) e
    rw [sumFrom, sumFrom]
    generalize rowValue columns e row = x, rowValue columns e row' = y at hvalue
    cases hvalue with
    | error b b' => exact .error _ _
    | ok hv =>
      cases hv with
      | none => exact ih htotal
      | some hxy => exact ih (agree_add htotal hxy)

theorem agree_sum (h : t.Agree u) (e : Expression α) : Alike Agree (sum t e) (sum u e) := by
  unfold sum
  rw [h.columns]
  exact agree_sumFrom u.columns e h.rows (.refl _)

end Formula

/-! ## Formulas -/

/-- The same formula, with values that agree. -/
structure FormulaValue.Agree (v v' : FormulaValue α) : Prop where
  name : v.name = v'.name
  kind : v.kind = v'.kind
  value : Option.Rel Quantity.Agree v.value v'.value
  unit : v.unit = v'.unit

namespace Summary

abbrev ScopesAgree (scope scope' : Scope (Option α)) : Prop :=
  Scope.Paired (Option.Rel Agree) scope scope'

theorem agree_textValue (h : t.Agree u) (place : Place) (text? : Option String) :
    Alike Agree (textValue t place text?) (textValue u place text?) := by
  unfold textValue
  cases parseText (α := α) place text? with
  | error e => exact .error e e
  | ok e =>
    rw [ok_bind, ok_bind, h.columns]
    cases Formula.bind place u.columns e with
    | error e => exact .error e e
    | ok _ => exact (Formula.agree_sum h e).mapError

theorem agree_rawValue (h : t.Agree u) {scope scope' : Scope (Option α)}
    (hscope : ScopesAgree scope scope') (i : Nat) (f : SummaryFormula α) :
    Alike (Option.Rel Agree) (rawValue t scope i f) (rawValue u scope' i f) := by
  unfold rawValue
  cases f.method with
  | reduce reduction =>
    cases f.column? with
    | none => exact .error _ _
    | some column =>
      have hcolumn := h.columnValues? column
      dsimp only
      generalize t.columnValues? column = cells, u.columnValues? column = cells' at hcolumn
      cases hcolumn with
      | none => exact .error _ _
      | some hcells => exact .ok ((Tally.agree_ofCells hcells).result reduction)
  | arithmetic => exact (agree_textValue h _ f.text).map fun _ _ => .some
  | combine op =>
    cases f.operands? with
    | none => exact .error _ _
    | some names =>
      refine (hscope.pair _ names.1 names.2).bind fun v v' hv => .ok ?_
      exact op.rel_evalOption hv.1 hv.2

theorem rel_scaled (f : SummaryFormula α) {x? y? : Option α} (h : Option.Rel Agree x? y?) :
    Option.Rel Agree (scaled f x?) (scaled f y?) := by
  cases h with
  | none => exact .none
  | some h => exact .some (agree_mul h (.refl _))

theorem alike_checkFinite (i : Nat) (f : SummaryFormula α) {x? y? : Option α}
    (h : Option.Rel Agree x? y?) :
    Alike (fun _ _ => True) (checkFinite i f x?) (checkFinite i f y?) := by
  cases h with
  | none => exact .ok trivial
  | some h =>
    rw [checkFinite, checkFinite, isFinite_eq h]
    split
    · exact .ok trivial
    · exact .error _ _

theorem agree_evaluate (h : t.Agree u) {fs : List (SummaryFormula α)} :
    ∀ {i : Nat} {scope scope' : Scope (Option α)}, ScopesAgree scope scope' →
      Alike ScopesAgree (evaluate t i scope fs) (evaluate u i scope' fs) := by
  induction fs with
  | nil => exact fun hscope => .ok hscope
  | cons f rest ih =>
    intro i scope scope' hscope
    refine (agree_rawValue h hscope i f).bind fun x? y? hxy => ?_
    have hscaled := rel_scaled f hxy
    refine (alike_checkFinite i f hscaled).bind fun _ _ _ => ?_
    exact (hscope.define (partPlace i "name") f.boundName hscaled).bind fun _ _ => ih

omit [SignedZeroLaws α] in
theorem agree_results {scope scope' : Scope (Option α)} (h : ScopesAgree scope scope')
    (fs : List (SummaryFormula α)) :
    List.Forall₂ FormulaValue.Agree (results scope fs) (results scope' fs) := by
  refine forall₂_zipWith (S := Eq) ?_ h (List.forall₂_same.mpr fun _ _ => rfl)
  rintro entry entry' f _ ⟨hname, hvalue⟩ rfl
  exact ⟨hname, rfl, hvalue, rfl⟩

theorem agree_runFormulas (h : t.Agree u) (fs : List (SummaryFormula α)) :
    Alike (List.Forall₂ FormulaValue.Agree) (runFormulas t fs) (runFormulas u fs) :=
  (agree_evaluate h Scope.Paired.empty).bind fun _ _ hscope => .ok (agree_results hscope fs)

end Summary

/-! ## Results -/

/-- The same parts, which agree. -/
structure StepOutput.Agree (r r' : StepOutput α) : Prop where
  table : Option.Rel Table.Agree r.table r'.table
  chart : Option.Rel Figure.Agree r.chart r'.chart
  formulas : Option.Rel (List.Forall₂ FormulaValue.Agree) r.formulas r'.formulas

omit [SignedZeroLaws α] in
theorem StepOutput.agree_ofTable (h : t.Agree u) : (ofTable t).Agree (ofTable u) :=
  ⟨.some h, .none, .none⟩

namespace Summary

/-- The chart tells the tables apart. -/
def TellsApart (config : Summary α) (t u : Table α) : Prop :=
  ∃ chart, config.chart = some chart ∧ chart.TellsApart t u

omit [WireQuantity α] [SignedZeroLaws α] in
theorem alike_ifAsked {β γ : Type} {P : γ → γ → Prop} {f g : β → Checked γ} {asked : Option β}
    (h : ∀ x, asked = some x → Alike P (f x) (g x)) :
    Alike (Option.Rel P) (ifAsked f asked) (ifAsked g asked) := by
  cases asked with
  | none => exact .ok .none
  | some x => exact (h x rfl).map fun _ _ => .some

/-- A summary runs over both of two tables that agree, or over neither; the results agree unless
its chart tells the tables apart. -/
theorem agree_run (config : Summary α) (h : t.Agree u) :
    Alike (fun r r' => config.TellsApart t u ∨ r.Agree r') (config.run t) (config.run u) := by
  have htable : Option.Rel Table.Agree (if config.includeTable then some t else none)
      (if config.includeTable then some u else none) := by
    split
    · exact .some h
    · exact .none
  have hformulas : Alike (Option.Rel (List.Forall₂ FormulaValue.Agree))
      (ifAsked (runFormulas t) config.formulas) (ifAsked (runFormulas u) config.formulas) :=
    alike_ifAsked fun fs _ => agree_runFormulas h fs
  have hcharts : Alike (Option.Rel fun f f' => config.TellsApart t u ∨ f.Agree f')
      (ifAsked (ChartSpec.build · t) config.chart) (ifAsked (ChartSpec.build · u) config.chart) :=
    alike_ifAsked fun chart hasked => (chart.agree_build h).mono fun _ _ =>
      Or.imp_left fun htells => ⟨chart, hasked, htells⟩
  rw [run_eq, run_eq]
  refine hformulas.bind fun values values' hvalues => hcharts.bind fun chart chart' hchart => ?_
  cases hchart with
  | none => exact .ok (.inr ⟨htable, .none, hvalues⟩)
  | some hchart => exact .ok (hchart.imp_right fun hagree => ⟨htable, .some hagree, hvalues⟩)

end Summary
end TableSteps
