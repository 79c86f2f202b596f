import TableSteps.Proofs.Binary64.Lawful
import TableSteps.Proofs.Reduction.Parts
import TableSteps.Proofs.Step.DeclarationOrder
import TableSteps.Proofs.Summary.Adequacy

/-! # The values of a summary, by position

`Sequential` says which values the formulas of a summary have, with neither a scope nor a run: every
formula has one value, its column, its text or two earlier values decide what it is, and the portion
of the formula scales it. An accepted list of formulas has exactly one list of such values, since
operands stand before the formula that uses them and no name is given twice.

A summary that passed its check computes these values and stops at the first one that is a number
but not a finite one. -/

namespace TableSteps.Summary

variable {α : Type} [WireQuantity α] {t : Table α} {fs : List (SummaryFormula α)}
  {values others : List (Option α)} {i : Nat} {f : SummaryFormula α}

/-! ## Values by position -/

/-- The formula of this name stands before position `i` and has this value. -/
def Earlier (fs : List (SummaryFormula α)) (values : List (Option α)) (i : Nat) (name : String)
    (value : Option α) : Prop :=
  ∃ j < i, (fs.map SummaryFormula.boundName)[j]? = some name ∧ values[j]? = some value

/-- What formula `i` gives before it is scaled, when the formulas have these values. -/
inductive Unscaled (t : Table α) (fs : List (SummaryFormula α)) (values : List (Option α))
    (i : Nat) (f : SummaryFormula α) : Option α → Prop
  | reduce {reduction : Reduction} {column : String} {cells : List (Cell α)}
    (hmethod : f.method = .reduce reduction) (hsubject : f.subject = some (.single column))
    (hcells : t.columnValues? column = some cells) :
    Unscaled t fs values i f ((Tally.ofCells cells).result reduction)
  | arithmetic {text : String} {e : Formula.Expression α} {x : α}
    (hmethod : f.method = .arithmetic) (htext : f.text = some text)
    (hparse : Formula.parse text = .ok e) (hsum : Formula.sum t e = .ok x) :
    Unscaled t fs values i f (some x)
  | combine {op : Operator} {left right : String} {x y : Option α}
    (hmethod : f.method = .combine op) (hsubject : f.subject = some (.many [left, right]))
    (hleft : Earlier fs values i left x) (hright : Earlier fs values i right y) :
    Unscaled t fs values i f (op.evalOption x y)

/-- The values of all formulas, each from the table and from the values before it. -/
structure Sequential (t : Table α) (fs : List (SummaryFormula α)) (values : List (Option α)) :
    Prop where
  length : values.length = fs.length
  value {i : Nat} {f : SummaryFormula α} : fs[i]? = some f →
    ∃ raw, Unscaled t fs values i f raw ∧ values[i]? = some (raw.map (· * f.portion))

/-- Why a formula has no value: the numbers are missing, or an operand is, or it would divide by
zero. -/
inductive Valueless (t : Table α) (fs : List (SummaryFormula α)) (values : List (Option α))
    (i : Nat) (f : SummaryFormula α) : Prop
  | reduce {reduction : Reduction} {column : String} {cells : List (Cell α)}
    (hmethod : f.method = .reduce reduction) (hreduction : reduction ∈ [.mean, .max, .min])
    (hsubject : f.subject = some (.single column)) (hcells : t.columnValues? column = some cells)
    (hnone : ∀ c ∈ cells, c.asNumber = none)
  | combine {op : Operator} {left right : String} {x y : Option α}
    (hmethod : f.method = .combine op) (hsubject : f.subject = some (.many [left, right]))
    (hleft : Earlier fs values i left x) (hright : Earlier fs values i right y)
    (hnone : x = none ∨ y = none ∨ op = .divide ∧ ∃ v, y = some v ∧ Quantity.isZero v = true)

/-- The results of formulas with these values. -/
def resultsOf (fs : List (SummaryFormula α)) (values : List (Option α)) : List (FormulaValue α) :=
  fs.zipWith (fun f v => ⟨f.boundName, f.method.tag, v, f.unit⟩) values

/-! ## One list of values -/

omit [WireQuantity α] in
theorem Earlier.unique (hnames : (fs.map SummaryFormula.boundName).Nodup)
    (hagree : ∀ j < i, values[j]? = others[j]?) {name : String} {x y : Option α}
    (hx : Earlier fs values i name x) (hy : Earlier fs others i name y) : x = y := by
  obtain ⟨j, hj, hname, hx⟩ := hx
  obtain ⟨k, -, hname', hy⟩ := hy
  obtain ⟨hlt, -⟩ := List.getElem?_eq_some_iff.mp hname
  obtain rfl : j = k := (List.getElem?_inj hlt hnames).mp (hname.trans hname'.symm)
  exact Option.some_inj.mp (hx.symm.trans ((hagree j hj).trans hy))

theorem Unscaled.unique (hnames : (fs.map SummaryFormula.boundName).Nodup)
    (hagree : ∀ j < i, values[j]? = others[j]?) {x y : Option α}
    (hx : Unscaled t fs values i f x) (hy : Unscaled t fs others i f y) : x = y := by
  cases hx with
  | reduce hmethod hsubject hcells =>
    cases hy with
    | reduce hmethod' hsubject' hcells' =>
      cases hmethod.symm.trans hmethod'
      cases hsubject.symm.trans hsubject'
      cases hcells.symm.trans hcells'
      rfl
    | arithmetic hmethod' => cases hmethod.symm.trans hmethod'
    | combine hmethod' => cases hmethod.symm.trans hmethod'
  | arithmetic hmethod htext hparse hsum =>
    cases hy with
    | reduce hmethod' => cases hmethod.symm.trans hmethod'
    | arithmetic hmethod' htext' hparse' hsum' =>
      cases htext.symm.trans htext'
      cases hparse.symm.trans hparse'
      cases hsum.symm.trans hsum'
      rfl
    | combine hmethod' => cases hmethod.symm.trans hmethod'
  | combine hmethod hsubject hleft hright =>
    cases hy with
    | reduce hmethod' => cases hmethod.symm.trans hmethod'
    | arithmetic hmethod' => cases hmethod.symm.trans hmethod'
    | combine hmethod' hsubject' hleft' hright' =>
      cases hmethod.symm.trans hmethod'
      cases hsubject.symm.trans hsubject'
      rw [hleft.unique hnames hagree hleft', hright.unique hnames hagree hright']

theorem Sequential.unique (hnames : (fs.map SummaryFormula.boundName).Nodup)
    (h : Sequential t fs values) (h' : Sequential t fs others) : others = values := by
  refine List.ext_getElem? fun i => ?_
  induction i using Nat.strongRecOn with
  | ind i ih =>
    cases hf : fs[i]? with
    | none =>
      have hlength := List.getElem?_eq_none_iff.mp hf
      rw [List.getElem?_eq_none (h'.length ▸ hlength), List.getElem?_eq_none (h.length ▸ hlength)]
    | some f =>
      obtain ⟨raw, hraw, hvalue⟩ := h.value hf
      obtain ⟨raw', hraw', hvalue'⟩ := h'.value hf
      rw [hvalue, hvalue', hraw'.unique hnames ih hraw]

/-! ## Where there is no value -/

theorem Unscaled.eq_none_iff [LawfulQuantity α] (hnames : (fs.map SummaryFormula.boundName).Nodup)
    {raw : Option α} (h : Unscaled t fs values i f raw) :
    raw = none ↔ Valueless t fs values i f := by
  constructor
  · intro hnone
    cases h with
    | reduce hmethod hsubject hcells =>
      obtain ⟨hreduction, hnumbers⟩ := Tally.result_eq_none_iff.mp hnone
      exact .reduce hmethod hreduction hsubject hcells (Tally.numbersIn_eq_nil_iff.mp hnumbers)
    | arithmetic => cases hnone
    | combine hmethod hsubject hleft hright =>
      exact .combine hmethod hsubject hleft hright (Operator.evalOption_eq_none_iff.mp hnone)
  · intro hvalueless
    have hnone : Unscaled t fs values i f none := by
      cases hvalueless with
      | reduce hmethod hreduction hsubject hcells hnone =>
        rw [← Tally.result_eq_none_iff.mpr ⟨hreduction, Tally.numbersIn_eq_nil_iff.mpr hnone⟩]
        exact .reduce hmethod hsubject hcells
      | combine hmethod hsubject hleft hright hnone =>
        rw [← Operator.evalOption_eq_none_iff.mpr hnone]
        exact .combine hmethod hsubject hleft hright
    exact h.unique hnames (fun _ _ => rfl) hnone

/-! ## The reference by names gives the values by position -/

omit [WireQuantity α] in
theorem subject_of_column? {column : String} (h : f.column? = some column) :
    f.subject = some (.single column) := by
  obtain ⟨subject, hsubject, h⟩ := Option.bind_eq_some_iff.mp h
  cases subject with
  | single name =>
    cases h
    exact hsubject
  | many names => cases h

omit [WireQuantity α] in
theorem subject_of_operands? {left right : String} (h : f.operands? = some (left, right)) :
    f.subject = some (.many [left, right]) := by
  obtain ⟨subject, hsubject, h⟩ := Option.bind_eq_some_iff.mp h
  unfold Subject.pair? at h
  split at h
  · cases h
    exact hsubject
  · cases h

omit [WireQuantity α] in
theorem earlier_of_lookup {entries : List (String × Option α)}
    (hnames : entries.map Prod.fst = fs.map SummaryFormula.boundName) {name : String}
    {value : Option α} (h : (entries.take i).lookup name = some value) :
    Earlier fs (entries.map Prod.snd) i name value := by
  obtain ⟨j, hj⟩ := List.mem_iff_getElem?.mp (Dictionary.mem_of_lookup h)
  rw [List.getElem?_take] at hj
  split at hj
  · rename_i hlt
    exact ⟨j, hlt, by rw [← hnames, List.getElem?_map, hj, Option.map_some],
      by rw [List.getElem?_map, hj, Option.map_some]⟩
  · cases hj

theorem unscaled_of_rawValue {entries : List (String × Option α)}
    (hnames : entries.map Prod.fst = fs.map SummaryFormula.boundName) {raw : Option α}
    (h : rawValue t ⟨entries.take i⟩ i f = .ok raw) :
    Unscaled t fs (entries.map Prod.snd) i f raw := by
  unfold rawValue at h
  cases hmethod : f.method with
  | reduce reduction =>
    rw [hmethod] at h
    dsimp only at h
    split at h
    · cases h
    · rename_i column hcolumn
      split at h
      · cases h
      · rename_i cells hcells
        cases h
        exact .reduce hmethod (subject_of_column? hcolumn) hcells
  | arithmetic =>
    rw [hmethod] at h
    obtain ⟨x, hx, rfl⟩ := map_eq_ok_iff.mp h
    obtain ⟨e, he, h⟩ := bind_eq_ok_iff.mp hx
    obtain ⟨-, h⟩ := check_bind_eq_ok_iff.mp h
    obtain ⟨text, htext, hparse⟩ := Option.map_eq_some_iff.mp (parseText_eq_ok he)
    exact .arithmetic hmethod htext hparse (mapError_eq_ok_iff.mp h)
  | combine op =>
    rw [hmethod] at h
    dsimp only at h
    split at h
    · cases h
    · rename_i left right hoperands
      obtain ⟨⟨x, y⟩, hpair, h⟩ := bind_eq_ok_iff.mp h
      cases h
      obtain ⟨hleft, hright⟩ := Scope.get?_of_pair hpair
      exact .combine hmethod (subject_of_operands? hoperands) (earlier_of_lookup hnames hleft)
        (earlier_of_lookup hnames hright)

theorem map_fst_scaledValues (earlier : List (String × Option α)) :
    (scaledValues t earlier fs).map Prod.fst = fs.map SummaryFormula.boundName := by
  induction fs generalizing earlier with
  | nil => rfl
  | cons f rest ih => rw [scaledValues, List.map_cons, List.map_cons, ih]

/-- Every formula has its reference value over those before it. -/
theorem getElem?_scaledValues (hf : fs[i]? = some f) {earlier : List (String × Option α)} :
    (scaledValues t earlier fs)[i]? = some (f.boundName,
      scaled f (referenceValue t (earlier ++ (scaledValues t earlier fs).take i) f)) := by
  induction fs generalizing earlier i with
  | nil => cases hf
  | cons g rest ih =>
    cases i with
    | zero =>
      cases hf
      rw [scaledValues, List.take_zero, List.append_nil]
      rfl
    | succ i =>
      rw [scaledValues, List.getElem?_cons_succ, ih hf, List.take_succ_cons, List.append_assoc,
        List.singleton_append]

theorem results_scaledValues {earlier : List (String × Option α)} :
    results ⟨scaledValues t earlier fs⟩ fs =
      resultsOf fs ((scaledValues t earlier fs).map Prod.snd) := by
  induction fs generalizing earlier with
  | nil => rfl
  | cons f rest ih => exact congrArg (List.cons _) ih

/-! ## What the check gives -/

variable {config : Summary α}

theorem checkFormulaColumns_of_checkAllColumns (h : checkAllColumns t i fs = .ok ()) {k : Nat}
    (hf : fs[k]? = some f) : checkFormulaColumns t (i + k) f = .ok () := by
  induction fs generalizing i k with
  | nil => cases hf
  | cons g rest ih =>
    obtain ⟨hfirst, hrest⟩ := check_bind_eq_ok_iff.mp h
    cases k with
    | zero =>
      cases hf
      exact hfirst
    | succ k => rw [← Nat.add_assoc, Nat.add_right_comm]; exact ih hrest hf

theorem nodup_names_of_check (h : config.check (some t) = .ok ()) :
    (config.formulaList.map SummaryFormula.boundName).Nodup := by
  obtain ⟨hshapes, -⟩ := check_bind_eq_ok_iff.mp h
  obtain ⟨s, hs, -⟩ := bind_eq_ok_iff.mp hshapes
  rw [checkFormulas_eq_all] at hs
  exact (binds_checkFormula.scope_of_all hs).2

/-- Every formula of a checked summary has its reference value, unscaled, over those before it. -/
theorem unscaled_of_check (h : config.check (some t) = .ok ())
    (hf : config.formulaList[i]? = some f) :
    Unscaled t config.formulaList ((scaledValues t [] config.formulaList).map Prod.snd) i f
      (referenceValue t ((scaledValues t [] config.formulaList).take i) f) := by
  obtain ⟨hshapes, h⟩ := check_bind_eq_ok_iff.mp h
  obtain ⟨-, hcolumns⟩ := check_bind_eq_ok_iff.mp h
  obtain ⟨u, hu, -⟩ := bind_eq_ok_iff.mp hshapes
  rw [checkFormulas_eq_all] at hu
  obtain ⟨s, v, hs, hformula⟩ := EntryCheck.exists_check_of_all hu hf
  obtain ⟨hsubject, -⟩ := checkFormula_eq_ok hformula
  have hcolumn := checkFormulaColumns_of_checkAllColumns hcolumns hf
  rw [Nat.zero_add] at hcolumn
  have hnames : s.names = ((scaledValues t [] config.formulaList).take i).map Prod.fst := by
    obtain ⟨hnames, -⟩ := binds_checkFormula.scope_of_all hs
    rw [hnames, List.map_take, List.map_take, map_fst_scaledValues]
    rfl
  exact unscaled_of_rawValue (map_fst_scaledValues []) (rawValue_of_check hnames hsubject hcolumn)

theorem sequential_of_check (h : config.check (some t) = .ok ()) :
    Sequential t config.formulaList ((scaledValues t [] config.formulaList).map Prod.snd) where
  length := by
    rw [List.length_map, ← List.length_map Prod.fst, map_fst_scaledValues, List.length_map]
  value hf :=
    ⟨_, unscaled_of_check h hf, by
      rw [List.getElem?_map, getElem?_scaledValues hf, Option.map_some, List.nil_append]
      rfl⟩

/-! ## What the run gives -/

/-- What a checked summary makes of the values of its formulas. -/
structure HasValues (config : Summary α) (t : Table α) (values : List (Option α)) : Prop where
  sequential : Sequential t config.formulaList values
  unique (others : List (Option α)) : Sequential t config.formulaList others → others = values
  /-- Values that are null or finite come out as they are, in order. -/
  finite : (∀ x, some x ∈ values → Quantity.isFinite x = true) →
    runFormulas t config.formulaList = .ok (resultsOf config.formulaList values) ∧
      ∃ out, config.run t = .ok out ∧
        out.formulas = config.formulas.map fun fs => resultsOf fs values
  /-- The first value that is a number but not a finite one is reported. -/
  infinite : (∃ x, some x ∈ values ∧ Quantity.isFinite x = false) →
    ∃ n x e, values[n]? = some (some x) ∧ Quantity.isFinite x = false ∧
      (∀ y, some y ∈ values.take n → Quantity.isFinite y = true) ∧
      runFormulas t config.formulaList = .error e ∧ config.run t = .error e ∧
      e.details.get? "field" = some (.str s!"formula[{n}]") ∧
      e.details.get? "reason" = some (.str "non_numeric_result")
  null {i : Nat} {f : SummaryFormula α} : config.formulaList[i]? = some f →
    (values[i]? = some none ↔ Valueless t config.formulaList values i f)

theorem runFormulas_of_check (h : config.check (some t) = .ok ()) :
    runFormulas t config.formulaList =
      match firstInfinite? 0 (scaledValues t [] config.formulaList) with
      | none =>
        .ok (resultsOf config.formulaList ((scaledValues t [] config.formulaList).map Prod.snd))
      | some e => .error e := by
  rw [runFormulas, evaluate_formulaList h, ← results_scaledValues]
  cases firstInfinite? 0 (scaledValues t [] config.formulaList) <;> rfl

/-- The formulas of a result are those that the summary asks for. -/
theorem formulas_of_run {out : StepOutput α} (h : config.run t = .ok out)
    {rs : List (FormulaValue α)} (hformulas : runFormulas t config.formulaList = .ok rs) :
    out.formulas = config.formulas.map fun _ => rs := by
  rw [run_eq] at h
  obtain ⟨formulas, hasked, h⟩ := bind_eq_ok_iff.mp h
  obtain ⟨chart, -, h⟩ := bind_eq_ok_iff.mp h
  cases h
  unfold formulaList at hformulas
  cases hfs : config.formulas with
  | none =>
    rw [hfs] at hasked
    cases hasked
    rfl
  | some fs =>
    rw [hfs, Option.getD_some] at hformulas
    rw [hfs, ifAsked, hformulas] at hasked
    cases hasked
    rfl

theorem path_formulaPlace (i : Nat) : (formulaPlace i).path = s!"formula[{i}]" := by
  have hopen : "formula[" = "formula" ++ "[" := rfl
  simp only [formulaPlace, Place.path, toString, hopen]

theorem run_of_finite (h : config.check (some t) = .ok ())
    (hfinite : ∀ x, some x ∈ (scaledValues t [] config.formulaList).map Prod.snd →
      Quantity.isFinite x = true) :
    runFormulas t config.formulaList =
        .ok (resultsOf config.formulaList ((scaledValues t [] config.formulaList).map Prod.snd)) ∧
      ∃ out, config.run t = .ok out ∧ out.formulas = config.formulas.map fun fs =>
        resultsOf fs ((scaledValues t [] config.formulaList).map Prod.snd) := by
  have hnone : firstInfinite? 0 (scaledValues t [] config.formulaList) = none :=
    firstInfinite?_eq_none_iff.mpr fun name x hmem =>
      hfinite x (List.mem_map.mpr ⟨_, hmem, rfl⟩)
  have hformulas := runFormulas_of_check h
  rw [hnone] at hformulas
  have hclear : ¬ config.Obstructed t := by
    rintro ⟨name, x, hmem, hx⟩
    rw [firstInfinite?_eq_none_iff.mp hnone name x hmem] at hx
    cases hx
  obtain ⟨out, hout⟩ := run_of_check h hclear
  refine ⟨hformulas, out, hout, ?_⟩
  rw [formulas_of_run hout hformulas]
  unfold formulaList
  cases config.formulas <;> rfl

theorem run_of_infinite (h : config.check (some t) = .ok ()) {x : α}
    (hx : some x ∈ (scaledValues t [] config.formulaList).map Prod.snd)
    (hinfinite : Quantity.isFinite x = false) :
    ∃ n y e, ((scaledValues t [] config.formulaList).map Prod.snd)[n]? = some (some y) ∧
      Quantity.isFinite y = false ∧
      (∀ z, some z ∈ ((scaledValues t [] config.formulaList).map Prod.snd).take n →
        Quantity.isFinite z = true) ∧
      runFormulas t config.formulaList = .error e ∧ config.run t = .error e ∧
      e.details.get? "field" = some (.str s!"formula[{n}]") ∧
      e.details.get? "reason" = some (.str "non_numeric_result") := by
  obtain ⟨⟨name, _⟩, hmem, rfl⟩ := List.mem_map.mp hx
  have hformulas := runFormulas_of_check h
  cases hfirst : firstInfinite? 0 (scaledValues t [] config.formulaList) with
  | none =>
    rw [firstInfinite?_eq_none_iff.mp hfirst name x hmem] at hinfinite
    cases hinfinite
  | some e =>
    rw [hfirst] at hformulas
    obtain ⟨n, other, y, hn, hy, hbefore, rfl⟩ := firstInfinite?_eq_some hfirst
    refine ⟨n, y, _, by rw [List.getElem?_map, hn, Option.map_some], hy, fun z hz => ?_,
      hformulas, run_of_runFormulas_eq_error hformulas, ?_, ?_⟩
    · rw [← List.map_take] at hz
      obtain ⟨⟨name', _⟩, hz, rfl⟩ := List.mem_map.mp hz
      exact hbefore name' z hz
    · rw [StepError.get?_details_field rfl, path_formulaPlace, Nat.zero_add]
    · rw [StepError.get?_details_of_cause (by decide) (by decide) (by decide)]
      simp [StepError.placed, Cause.details]

/-- The values that the formulas of a checked summary have by position are its results, unless one
of them is a number but not a finite one. -/
theorem exists_values_of_check [LawfulQuantity α] (h : config.check (some t) = .ok ()) :
    ∃ values, config.HasValues t values := by
  have hsequential := sequential_of_check h
  have hnames := nodup_names_of_check h
  exact ⟨_,
    { sequential := hsequential
      unique others hothers := hsequential.unique hnames hothers
      finite := run_of_finite h
      infinite := fun ⟨x, hx, hinfinite⟩ => run_of_infinite h hx hinfinite
      null hf := by
        obtain ⟨raw, hraw, hvalue⟩ := hsequential.value hf
        rw [hvalue, ← hraw.eq_none_iff hnames]
        simp }⟩

/-- The best of a column without numbers is null, and so is a share of it. A total that is scaled by
`2 ^ 1023` is infinite and stops the summary. -/
theorem exists_values_of_check_sales :
    let t : Table Float := ⟨["sales", "bonus"], [[.number 3.0, .empty], [.number 5.0, .empty]]⟩
    let best : SummaryFormula Float := ⟨none, some (.single "bonus"), .reduce .max, none, none, 1.0⟩
    let total (portion : Float) : SummaryFormula Float :=
      ⟨some "total", some (.single "sales"), .reduce .sum, none, some "EUR", portion⟩
    let share : SummaryFormula Float :=
      ⟨some "share", some (.many ["max(bonus)", "total"]), .combine .divide, none, none, 100.0⟩
    let config (portion : Float) : Summary Float :=
      ⟨some [best, total portion, share], none, false⟩
    let huge : Float := .ofBits 0x7FE0000000000000
    ((config 0.5).check (some t) = .ok () ∧
      (∃ values, (config 0.5).HasValues t values ∧ values[0]? = some none) ∧
      (config 0.5).run t = .ok ⟨none, none, some
        [ ⟨"max(bonus)", "max", none, none⟩, ⟨"total", "sum", some 4.0, some "EUR"⟩,
          ⟨"share", "/", none, none⟩ ]⟩) ∧
    (config huge).check (some t) = .ok () ∧ (∃ values, (config huge).HasValues t values) ∧
      (config huge).run t = .error (.placed (formulaPlace 1) (.infiniteResult "total" "inf")) := by
  intro t best total share config huge
  have hsmall : (config 0.5).check (some t) = .ok () := by
    subst huge config share total best t
    rfl
  have hhuge : (config huge).check (some t) = .ok () := by
    subst huge config share total best t
    rfl
  have hresults : (config 0.5).run t = .ok ⟨none, none, some
      [ ⟨"max(bonus)", "max", none, none⟩, ⟨"total", "sum", some 4.0, some "EUR"⟩,
        ⟨"share", "/", none, none⟩ ]⟩ := by
    subst huge config share total best t
    rfl
  have hinfinite : (config huge).run t =
      .error (.placed (formulaPlace 1) (.infiniteResult "total" "inf")) := by
    subst huge config share total best t
    rfl
  obtain ⟨values, hvalues⟩ := exists_values_of_check hsmall
  have hbest : values[0]? = some none := by
    refine (hvalues.null (f := best) rfl).mpr ?_
    have hcells : t.columnValues? "bonus" = some [.empty, .empty] := rfl
    exact .reduce rfl (by decide) rfl hcells (by simp)
  exact ⟨⟨hsmall, ⟨values, hvalues, hbest⟩, hresults⟩, hhuge, exists_values_of_check hhuge,
    hinfinite⟩

end TableSteps.Summary
