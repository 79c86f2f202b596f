import TableSteps.Proofs.SignedZero.Aggregation
import TableSteps.Proofs.Transform.Adequacy

/-! # Transforms and signed zeros

Copies carry a zero as it is and formulas compute with either alike. A mapping goes by labels, and
the two zeros have two labels; so a transform tells tables apart where one of its mappings looks up
something else in one of them. -/

namespace TableSteps

open Quantity (Agree)

variable {α : Type} [WireQuantity α] {t u : Table α}

theorem Table.Agree.setColumn (h : t.Agree u) (name : String) {values values' : List (Cell α)}
    (hvalues : List.Forall₂ Cell.Agree values values') :
    Alike Table.Agree (t.setColumn name values) (u.setColumn name values') := by
  unfold Table.setColumn
  rw [h.columnIndex?_eq, h.columns, h.rowCount_eq, hvalues.length_eq]
  split
  · cases u.columnIndex? name with
    | none =>
      refine .ok ⟨rfl, forall₂_zipWith (fun row row' c d hrow hc => ?_) h.rows hvalues⟩
      exact List.rel_append hrow (.cons hc .nil)
    | some p =>
      refine .ok ⟨rfl, forall₂_zipWith (fun row row' c d hrow hc => ?_) h.rows hvalues⟩
      rw [List.set_eq_modify, List.set_eq_modify]
      exact forall₂_modify (fun _ _ _ => hc) hrow p
  · exact .error _ _

namespace Transform

/-- A mapping looks up different cells in the two tables. -/
def MappingTellsApart (t u : Table α) : Calculation α → Prop
  | .mapping name targets =>
    (t.cells name).map (lookUp targets) ≠ (u.cells name).map (lookUp targets)
  | .constant _ | .copy _ | .formula .. => False

/-- Some mapping looks up different cells in the tables that it finds. -/
def TellsApart (config : Transform α) (t u : Table α) : Prop :=
  ∃ n o before before', config.operations[n]? = some o ∧
    steps 0 (config.operations.take n) t = .ok before ∧
    steps 0 (config.operations.take n) u = .ok before' ∧
    MappingTellsApart before before' o.calculation

theorem agree_source (h : t.Agree u) (place : Place) (name : String) :
    Alike (List.Forall₂ Cell.Agree) (source t place name) (source u place name) := by
  have hcolumn := h.columnValues? name
  unfold source
  generalize t.columnValues? name = cells, u.columnValues? name = cells' at hcolumn
  cases hcolumn with
  | none => exact .error _ _
  | some hcells => exact .ok hcells

theorem operand_eq (h : t.Agree u) (place : Place) (o : Operand α) :
    operand t place o = operand u place o := by
  rw [operand, operand, h.columns]

theorem rel_value? {row row' : Row α} (hrow : List.Forall₂ Cell.Agree row row') (b : Bound α) :
    Option.Rel Agree (b.value? row) (b.value? row') := by
  cases b with
  | column p => exact (Cell.agree_cellAt hrow p).asNumber
  | literal x => exact .some (.refl x)

variable [SignedZeroLaws α]

theorem agree_column (h : t.Agree u) (i : Nat) {c : Calculation α}
    (htells : ¬ MappingTellsApart t u c) :
    Alike (List.Forall₂ Cell.Agree) (column t i c) (column u i c) := by
  cases c with
  | constant value =>
    rw [column, column, h.rowCount_eq]
    exact .ok (List.forall₂_same.mpr fun c _ => .refl c)
  | copy name => exact agree_source h _ name
  | formula left op right =>
    simp only [column, operand_eq h]
    cases operand u (partPlace i "left") left with
    | error e => exact .error e e
    | ok x =>
      cases operand u (partPlace i "right") right with
      | error e => exact .error e e
      | ok y =>
        refine .ok (List.rel_map (fun row row' hrow => Cell.agree_ofOption ?_) h.rows)
        exact op.rel_evalOption (rel_value? hrow x) (rel_value? hrow y)
  | mapping name targets =>
    have hsame : (t.cells name).map (lookUp targets) = (u.cells name).map (lookUp targets) :=
      Classical.byContradiction htells
    have hcolumn := h.columnValues? name
    unfold Table.cells at hsame
    simp only [column, source]
    generalize t.columnValues? name = cells, u.columnValues? name = cells' at hcolumn hsame
    cases hcolumn with
    | none => exact .error _ _
    | some _ =>
      rw [Option.getD_some, Option.getD_some] at hsame
      simp only [ok_bind, hsame]
      exact .ok (List.forall₂_same.mpr fun c _ => .refl c)

/-- One operation leaves tables that agree unless it tells them apart. -/
theorem agree_step (h : t.Agree u) (i : Nat) {o : Operation α}
    (htells : ¬ MappingTellsApart t u o.calculation) :
    Alike Table.Agree (step t i o) (step u i o) := by
  refine (agree_column h i htells).bind fun values values' hvalues => ?_
  have hwritten := h.setColumn o.target hvalues
  generalize t.setColumn o.target values = x, u.setColumn o.target values' = y at hwritten
  cases hwritten with
  | error e e' => exact .error _ _
  | ok hvw => exact .ok hvw

theorem agree_steps {operations : List (Operation α)} :
    ∀ {i : Nat} {t u : Table α}, t.Agree u →
      (∀ n o before before', operations[n]? = some o →
        steps i (operations.take n) t = .ok before → steps i (operations.take n) u = .ok before' →
        ¬ MappingTellsApart before before' o.calculation) →
      Alike Table.Agree (steps i operations t) (steps i operations u) := by
  induction operations with
  | nil => exact fun h _ => .ok h
  | cons o rest ih =>
    intro i t u h htells
    refine (agree_step h i (htells 0 o t u rfl rfl rfl)).attach.bind fun v w hvw => ?_
    obtain ⟨hv, hw, hvw⟩ := hvw
    refine ih hvw fun n other before before' hother hbefore hbefore' => ?_
    refine htells (n + 1) other before before' hother ?_ ?_
    · rw [List.take_succ_cons, steps, hv]
      exact hbefore
    · rw [List.take_succ_cons, steps, hw]
      exact hbefore'

omit [SignedZeroLaws α] in
theorem check_eq {config : Transform α} (h : t.Agree u) :
    config.check (some t) = config.check (some u) := by
  simp only [check, checkColumns, h.columns]

/-- A checked transform runs over two tables that agree; what it makes of them agrees unless one of
its mappings tells them apart. -/
theorem alike_of_check {config : Transform α} (h : t.Agree u)
    (ht : config.check (some t) = .ok ()) :
    Alike (fun v w => config.TellsApart t u ∨ v.Agree w) (config.run t) (config.run u) := by
  by_cases htells : config.TellsApart t u
  · obtain ⟨v, hv⟩ := run_of_check ht
    obtain ⟨w, hw⟩ := run_of_check (check_eq h ▸ ht)
    rw [hv, hw]
    exact .ok (.inl htells)
  · refine (agree_steps h fun n o before before' ho hbefore hbefore' happart => htells ?_).mono
      fun _ _ => .inr
    exact ⟨n, o, before, before', ho, hbefore, hbefore', happart⟩

end Transform
end TableSteps
