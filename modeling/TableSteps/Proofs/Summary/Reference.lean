import TableSteps.Proofs.Formula.RowSum
import TableSteps.Proofs.Step.Lookup
import TableSteps.Summary.Check

/-! # The values of a summary, in order

What a summary computes, said without scopes, checks and errors: one scaled value for every
formula, each from the table and from the scaled values before it. A checked summary computes
exactly these values, and stops at the first of them that is a number but not a finite one. -/

namespace TableSteps.Summary

variable {α : Type} [WireQuantity α]

/-! ## The reference -/

/-- The value of a formula before it is scaled, given the scaled values of earlier formulas by their
names. -/
def referenceValue (t : Table α) (earlier : List (String × Option α)) (f : SummaryFormula α) :
    Option α :=
  match f.method with
  | .reduce reduction =>
    (f.column?.bind t.columnValues?).bind fun cells => (Tally.ofCells cells).result reduction
  | .arithmetic =>
    match f.text.map (Formula.parse (α := α)) with
    | some (.ok e) => some (Formula.total t e)
    | _ => none
  | .combine op =>
    match f.operands? with
    | some (left, right) => op.evalOption (earlier.lookup left).join (earlier.lookup right).join
    | none => none

/-- The names and scaled values of all formulas, in order. -/
def scaledValues (t : Table α) (earlier : List (String × Option α)) :
    List (SummaryFormula α) → List (String × Option α)
  | [] => []
  | f :: rest =>
    let value := scaled f (referenceValue t earlier f)
    (f.boundName, value) :: scaledValues t (earlier ++ [(f.boundName, value)]) rest

/-- The error of the first value that is a number but not a finite one. -/
def firstInfinite? (i : Nat) : List (String × Option α) → Option StepError
  | [] => none
  | (_, none) :: rest => firstInfinite? (i + 1) rest
  | (name, some x) :: rest =>
    if Quantity.isFinite x then firstInfinite? (i + 1) rest
    else some (.placed (formulaPlace i) (.infiniteResult name (Quantity.toText x)))

theorem firstInfinite?_eq_none_iff {values : List (String × Option α)} {i : Nat} :
    firstInfinite? i values = none ↔
      ∀ name x, (name, some x) ∈ values → Quantity.isFinite x = true := by
  induction values generalizing i with
  | nil => simp [firstInfinite?]
  | cons value rest ih =>
    obtain ⟨name, _ | x⟩ := value
    · simp [firstInfinite?, ih]
    · simp only [firstInfinite?, List.mem_cons, Prod.mk.injEq, Option.some.injEq]
      split
      · rename_i hx
        rw [ih]
        constructor
        · rintro h name' x' (⟨-, rfl⟩ | hmem)
          · exact hx
          · exact h name' x' hmem
        · exact fun h name' x' hmem => h name' x' (.inr hmem)
      · rename_i hx
        simp only [reduceCtorEq, false_iff]
        exact fun h => hx (h name x (.inl ⟨rfl, rfl⟩))

/-- The error names the formula by its position, and no value before it is infinite. -/
theorem firstInfinite?_eq_some {values : List (String × Option α)} {i : Nat} {e : StepError}
    (h : firstInfinite? i values = some e) :
    ∃ n name x, values[n]? = some (name, some x) ∧ Quantity.isFinite x = false ∧
      (∀ name' x', (name', some x') ∈ values.take n → Quantity.isFinite x' = true) ∧
      e = .placed (formulaPlace (i + n)) (.infiniteResult name (Quantity.toText x)) := by
  induction values generalizing i with
  | nil => cases h
  | cons value rest ih =>
    obtain ⟨name, _ | x⟩ := value
    · obtain ⟨n, name', x', hn, hx', hbefore, rfl⟩ := ih h
      refine ⟨n + 1, name', x', hn, hx', ?_, by rw [Nat.add_right_comm, Nat.add_assoc]⟩
      intro other y hy
      rcases List.mem_cons.mp hy with hy | hy
      · cases hy
      · exact hbefore other y hy
    · unfold firstInfinite? at h
      split at h
      · rename_i hx
        obtain ⟨n, name', x', hn, hx', hbefore, rfl⟩ := ih h
        refine ⟨n + 1, name', x', hn, hx', ?_, by rw [Nat.add_right_comm, Nat.add_assoc]⟩
        intro other y hy
        rcases List.mem_cons.mp hy with hy | hy
        · cases hy
          exact hx
        · exact hbefore other y hy
      · rename_i hx
        cases h
        exact ⟨0, name, x, rfl, Bool.eq_false_iff.mpr hx, by simp, rfl⟩

/-! ## The run -/

section Run

variable {t : Table α} {s : Scope Unit} {scope : Scope (Option α)} {i : Nat} {f : SummaryFormula α}

theorem parseText_eq_ok {place : Place} {text? : Option String} {e : Formula.Expression α}
    (h : parseText place text? = .ok e) : text?.map Formula.parse = some (.ok e) := by
  unfold parseText at h
  split at h
  · cases h
  · split at h
    · rename_i hparse
      cases h
      rw [Option.map_some, hparse]
    · cases h

theorem isNumericColumn_of_checkTextColumns {place : Place} {names : List String}
    (h : checkTextColumns t place names = .ok ()) :
    ∀ name ∈ names, name ∈ t.columns ∧ t.isNumericColumn name = true := by
  induction names with
  | nil => simp
  | cons name rest ih =>
    unfold checkTextColumns at h
    split at h
    · obtain ⟨hname, hrest⟩ := check_bind_eq_ok_iff.mp h
      intro other hother
      rcases List.mem_cons.mp hother with rfl | hother
      · exact Table.checkNumeric_eq_ok_iff.mp hname
      · exact ih hrest other hother
    · cases h

theorem textValue_of_check {place : Place} {text? : Option String} {e : Formula.Expression α}
    (hparse : parseText place text? = .ok e)
    (hcolumns : checkTextColumns t place e.columns = .ok ()) :
    textValue t place text? = .ok (Formula.total t e) := by
  have hnumeric := isNumericColumn_of_checkTextColumns hcolumns
  have hbind := Formula.bind_of_mem (fun name hname => (hnumeric name hname).1) place
  have hsum : Formula.sum t e = .ok (Formula.total t e) :=
    Formula.sum_eq_total fun name hname => (hnumeric name hname).2
  simp [textValue, hparse, hbind, hsum]

/-- A checked formula has its reference value. -/
theorem rawValue_of_check (hs : s.names = scope.names) (hsubject : checkSubject s i f = .ok ())
    (hcolumns : checkFormulaColumns t i f = .ok ()) :
    rawValue t scope i f = .ok (referenceValue t scope.entries f) := by
  unfold checkSubject at hsubject
  unfold checkFormulaColumns at hcolumns
  unfold rawValue referenceValue
  cases hmethod : f.method with
  | reduce reduction =>
    rw [hmethod] at hsubject hcolumns
    dsimp only at hsubject hcolumns ⊢
    split at hsubject
    · rename_i column hcolumn
      rw [hcolumn] at hcolumns
      obtain ⟨cells, hcells⟩ :=
        Table.exists_columnValues? (Table.mem_columns_of_checkFor hcolumns)
      simp [hcolumn, hcells]
    · cases hsubject
  | arithmetic =>
    rw [hmethod] at hsubject hcolumns
    dsimp only at hsubject hcolumns ⊢
    obtain ⟨e, he, -⟩ := map_eq_ok_iff.mp hsubject
    have hparse := parseText_eq_ok he
    rw [hparse] at hcolumns
    rw [textValue_of_check he hcolumns, hparse]
    rfl
  | combine op =>
    rw [hmethod] at hsubject
    dsimp only at hsubject ⊢
    split at hsubject
    · rename_i left right hoperands
      obtain ⟨v, hv, -⟩ := map_eq_ok_iff.mp hsubject
      obtain ⟨x, y, hx, hy, hxy⟩ := Scope.pair_of_names hs hv
      have hleft : scope.entries.lookup left = some x := Scope.get?_of_find hx
      have hright : scope.entries.lookup right = some y := Scope.get?_of_find hy
      simp [hoperands, hxy, hleft, hright]
    · cases hsubject

/-- One formula is computed, checked to be finite, and put in scope. -/
theorem evaluate_cons {raw : Option α} {next : Scope (Option α)} {rest : List (SummaryFormula α)}
    (hraw : rawValue t scope i f = .ok raw)
    (hnext : scope.define f.boundName (scaled f raw) = .ok next) :
    evaluate t i scope (f :: rest) =
      (checkFinite i f (scaled f raw) >>= fun _ => evaluate t (i + 1) next rest) := by
  rw [evaluate, hraw]
  simp only [hnext, ok_mapError, ok_bind]

end Run

theorem evaluate_of_check {t : Table α} {fs : List (SummaryFormula α)} :
    ∀ {i : Nat} {s u : Scope Unit} {scope : Scope (Option α)}, s.names = scope.names →
      checkFormulas i s fs = .ok u → checkAllColumns t i fs = .ok () →
      evaluate t i scope fs =
        match firstInfinite? i (scaledValues t scope.entries fs) with
        | none => .ok ⟨scope.entries ++ scaledValues t scope.entries fs⟩
        | some e => .error e := by
  induction fs with
  | nil =>
    intro i s u scope _ _ _
    simp [evaluate, scaledValues, firstInfinite?]
  | cons f rest ih =>
    intro i s u scope hs h hcolumns
    rw [checkFormulas, bind_eq_ok_iff] at h
    obtain ⟨s', hformula, h⟩ := h
    obtain ⟨-, hformula⟩ := check_bind_eq_ok_iff.mp hformula
    obtain ⟨hsubject, hdefine⟩ := check_bind_eq_ok_iff.mp hformula
    obtain ⟨hcolumns, hrest⟩ := check_bind_eq_ok_iff.mp hcolumns
    have hraw := rawValue_of_check hs hsubject hcolumns
    have hnext := Scope.define_of_names hs (mapError_eq_ok_iff.mp hdefine)
      (scaled f (referenceValue t scope.entries f))
    have hs' : s'.names = Scope.names
        ⟨scope.entries ++ [(f.boundName, scaled f (referenceValue t scope.entries f))]⟩ := by
      rw [Scope.names_define (mapError_eq_ok_iff.mp hdefine), Scope.names_define hnext, hs]
    have hrest := ih hs' h hrest
    rw [evaluate_cons hraw hnext, hrest, scaledValues]
    generalize scaled f (referenceValue t scope.entries f) = value
    cases value with
    | none => simp [checkFinite, firstInfinite?]
    | some x =>
      by_cases hx : Quantity.isFinite x = true
      · simp [checkFinite, firstInfinite?, hx]
      · simp [checkFinite, firstInfinite?, hx, refuse]

/-! ## The parts of a result -/

/-- A part of the result that the config may not ask for. -/
def ifAsked {β γ : Type} (f : β → Checked γ) : Option β → Checked (Option γ)
  | some x => (f x).map some
  | none => .ok none

omit [WireQuantity α] in
theorem exists_ifAsked {β γ : Type} {f : β → Checked γ} {asked : Option β}
    (h : ∀ x, asked = some x → ∃ y, f x = .ok y) : ∃ part, ifAsked f asked = .ok part := by
  cases asked with
  | none => exact ⟨none, rfl⟩
  | some x =>
    obtain ⟨y, hy⟩ := h x rfl
    exact ⟨some y, by rw [ifAsked, hy, ok_map]⟩

theorem run_eq (config : Summary α) (t : Table α) :
    config.run t = (do
      let formulas ← ifAsked (runFormulas t) config.formulas
      let chart ← ifAsked (ChartSpec.build · t) config.chart
      pure ⟨if config.includeTable then some t else none, chart, formulas⟩) := by
  unfold run
  cases config.formulas <;> cases config.chart <;> rfl

end TableSteps.Summary
