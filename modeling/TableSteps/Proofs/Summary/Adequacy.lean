import TableSteps.Proofs.Chart.Adequacy
import TableSteps.Proofs.Summary.Reference

/-! # A checked summary runs unless a value is infinite

The check has built the chart on trial, and it has looked up every column and every earlier name
that a formula reads. What it cannot see is the size of the numbers: a summary that passed runs
exactly when every scaled value is null or finite. -/

namespace TableSteps

variable {α : Type} [WireQuantity α] {t : Table α}

namespace Summary

/-- Some formula has a scaled value that is a number but not a finite one. -/
def Obstructed (config : Summary α) (t : Table α) : Prop :=
  ∃ name x, (name, some x) ∈ scaledValues t [] config.formulaList ∧ Quantity.isFinite x = false

variable {config : Summary α}

theorem evaluate_formulaList (h : config.check (some t) = .ok ()) :
    evaluate t 0 .empty config.formulaList =
      match firstInfinite? 0 (scaledValues t [] config.formulaList) with
      | none => .ok ⟨scaledValues t [] config.formulaList⟩
      | some e => .error e := by
  obtain ⟨hshapes, h⟩ := check_bind_eq_ok_iff.mp h
  obtain ⟨-, hcolumns⟩ := check_bind_eq_ok_iff.mp h
  obtain ⟨names, hnames, -⟩ := bind_eq_ok_iff.mp hshapes
  exact evaluate_of_check rfl hnames hcolumns

theorem run_of_check (h : config.check (some t) = .ok ()) (hfinite : ¬ config.Obstructed t) :
    ∃ out, config.run t = .ok out := by
  have hformulas : ∀ fs, config.formulas = some fs → ∃ values, runFormulas t fs = .ok values := by
    intro fs hfs
    have hnone : firstInfinite? 0 (scaledValues t [] config.formulaList) = none := by
      refine firstInfinite?_eq_none_iff.mpr fun name x hmem => ?_
      rw [← Bool.not_eq_false]
      exact fun hx => hfinite ⟨name, x, hmem, hx⟩
    have hevaluate := evaluate_formulaList h
    rw [hnone, formulaList, hfs, Option.getD_some] at hevaluate
    simp [runFormulas, hevaluate]
  have hchart : ∀ c, config.chart = some c → ∃ figure, c.build t = .ok figure := by
    intro c hc
    obtain ⟨-, h⟩ := check_bind_eq_ok_iff.mp h
    obtain ⟨hcheck, -⟩ := check_bind_eq_ok_iff.mp h
    rw [checkChart, hc] at hcheck
    exact (ChartSpec.check_eq_ok_iff.mp hcheck).2 t rfl
  obtain ⟨formulas, hformulas⟩ := exists_ifAsked hformulas
  obtain ⟨chart, hchart⟩ := exists_ifAsked hchart
  rw [run_eq, hformulas, hchart]
  exact ⟨_, rfl⟩

/-- The formulas come first: their error is that of the summary. -/
theorem run_of_runFormulas_eq_error {e : StepError}
    (h : runFormulas t config.formulaList = .error e) : config.run t = .error e := by
  unfold formulaList at h
  cases hfs : config.formulas with
  | none =>
    rw [hfs] at h
    cases h
  | some fs =>
    rw [hfs, Option.getD_some] at h
    rw [run_eq, hfs, ifAsked, h]
    rfl

theorem run_of_obstructed (h : config.check (some t) = .ok ()) (hinfinite : config.Obstructed t) :
    ∃ n name x, config.run t =
      .error (.placed (formulaPlace n) (.infiniteResult name (Quantity.toText (x : α)))) := by
  have hevaluate := evaluate_formulaList h
  obtain ⟨name, x, hmem, hx⟩ := hinfinite
  cases hfirst : firstInfinite? 0 (scaledValues t [] config.formulaList) with
  | none =>
    have := firstInfinite?_eq_none_iff.mp hfirst name x hmem
    rw [hx] at this
    cases this
  | some e =>
    obtain ⟨n, name', x', -, -, -, rfl⟩ := firstInfinite?_eq_some hfirst
    refine ⟨0 + n, name', x', run_of_runFormulas_eq_error ?_⟩
    rw [runFormulas, hevaluate, hfirst]
    rfl

end Summary

end TableSteps
