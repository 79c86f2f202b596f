import TableSteps.Proofs.Finite.Decoding
import TableSteps.Proofs.Transform.RowByRow

/-! # Where transforms leave the finite numbers

A formula can overflow, and a literal that is written as text need not be finite to begin with. All
other calculations put down cells that are there already: of the table, or of the config. -/

namespace TableSteps.Transform

open Quantity

variable {α : Type} [WireQuantity α]

/-- The operand is a literal, or a text that writes one, and that is no finite number. -/
def LiteralExceeds (columns : List String) (o : Operand α) : Prop :=
  ∃ x, bind? columns o = some (.literal x) ∧ isFinite x = false

/-- In some row a formula takes a literal that is not finite, or finite operands to a number that
is not. -/
def CalculationExceeds (columns : List String) (rows : List (Row α)) : Calculation α → Prop
  | .formula left op right =>
    ∃ row ∈ rows, LiteralExceeds columns left ∨ LiteralExceeds columns right ∨
      ∃ x y, operandValue? columns row left = some x ∧ operandValue? columns row right = some y ∧
        op.Overflows x y
  | .constant _ | .copy _ | .mapping .. => False

/-- Some operation computes a number that is not finite over the table that it finds. -/
def Exceeds (config : Transform α) (t : Table α) : Prop :=
  ∃ n o before, config.operations[n]? = some o ∧
    steps 0 (config.operations.take n) t = .ok before ∧
    CalculationExceeds before.columns before.rows o.calculation

variable {columns : List String} {row : Row α} {t : Table α}

theorem exceeds_singleton_iff {o : Operation α} :
    Exceeds ⟨[o]⟩ t ↔ CalculationExceeds t.columns t.rows o.calculation := by
  constructor
  · rintro ⟨n, other, before, hn, hbefore, hover⟩
    obtain ⟨rfl, rfl⟩ : n = 0 ∧ o = other := by simpa [List.getElem?_singleton] using hn
    cases hbefore
    exact hover
  · exact fun hover => ⟨0, o, t, rfl, rfl, hover⟩

theorem isFinite_operandValue? (hrow : ∀ p, (cellAt row p).IsFinite) {o : Operand α}
    (hliteral : ¬ LiteralExceeds columns o) {x : α} (hx : operandValue? columns row o = some x) :
    isFinite x = true := by
  obtain ⟨b, hb, hx⟩ := Option.bind_eq_some_iff.mp hx
  cases b with
  | column p => exact (hrow p).of_asNumber hx
  | literal y =>
    cases hx
    exact eq_true_of_ne_false fun hfinite => hliteral ⟨_, hb, hfinite⟩

theorem isFinite_cellFor {rows : List (Row α)} {c : Calculation α} (hmem : row ∈ rows)
    (hrow : ∀ p, (cellAt row p).IsFinite) (hc : c.IsFinite)
    (hexceeds : ¬ CalculationExceeds columns rows c) : (cellFor columns row c).IsFinite := by
  cases c with
  | constant value => exact hc
  | copy name => exact hrow _
  | formula left op right =>
    refine Cell.isFinite_ofOption_iff.mpr fun z hz => Operator.isFinite_evalOption ?_ ?_ ?_ hz
    · exact fun x => isFinite_operandValue? hrow fun h => hexceeds ⟨row, hmem, .inl h⟩
    · exact fun y => isFinite_operandValue? hrow fun h => hexceeds ⟨row, hmem, .inr (.inl h)⟩
    · exact fun x y hx hy hover => hexceeds ⟨row, hmem, .inr (.inr ⟨x, y, hx, hy, hover⟩)⟩
  | mapping name targets =>
    change (lookUp targets (cellAt row (columns.idxOf name))).IsFinite
    unfold lookUp
    cases htarget : targets.get? (cellAt row (columns.idxOf name)).label with
    | none => exact Cell.isFinite_empty
    | some c => exact hc _ c htarget

omit [WireQuantity α] in
theorem mem_putCell {name : String} {value c : Cell α} (h : c ∈ putCell columns name row value) :
    c ∈ row ∨ c = value := by
  unfold putCell at h
  split at h
  · exact List.mem_or_eq_of_mem_set h
  · simpa using h

/-- An operation writes finite cells over finite cells unless it exceeds. -/
theorem isFinite_step {i : Nat} {o : Operation α} {u : Table α} (ht : t.IsFinite)
    (ho : o.calculation.IsFinite)
    (hexceeds : ¬ CalculationExceeds t.columns t.rows o.calculation) (h : step t i o = .ok u) :
    u.IsFinite := by
  have hstep : step t i o = _ := step_withRows t.rows
  obtain ⟨-, -, rfl⟩ := map_eq_ok_iff.mp (hstep.symm.trans h)
  intro row' hrow' c hc
  obtain ⟨row, hrow, rfl⟩ := List.mem_map.mp hrow'
  rcases mem_putCell hc with hc | rfl
  · exact ht row hrow c hc
  · exact isFinite_cellFor hrow (ht.cellAt hrow) ho hexceeds

theorem isFinite_steps {operations : List (Operation α)} :
    ∀ {i : Nat} {t u : Table α}, t.IsFinite → (∀ o ∈ operations, o.calculation.IsFinite) →
      (∀ n o before, operations[n]? = some o → steps i (operations.take n) t = .ok before →
        ¬ CalculationExceeds before.columns before.rows o.calculation) →
      steps i operations t = .ok u → u.IsFinite := by
  induction operations with
  | nil =>
    intro i t u ht _ _ h
    cases h
    exact ht
  | cons o rest ih =>
    intro i t u ht hoperations hexceeds h
    obtain ⟨v, hv, h⟩ := bind_eq_ok_iff.mp h
    have hfirst := isFinite_step ht (hoperations o List.mem_cons_self) (hexceeds 0 o t rfl rfl) hv
    refine ih hfirst (fun other hother => hoperations other (List.mem_cons_of_mem _ hother)) ?_ h
    intro n other before hother hbefore
    refine hexceeds (n + 1) other before hother ?_
    rw [List.take_succ_cons, steps, hv, ok_bind]
    exact hbefore

/-- A transform of finite numbers by a finite config puts out finite numbers unless a formula
exceeds. -/
theorem isFinite_run {config : Transform α} {u : Table α} (ht : t.IsFinite)
    (hconfig : config.IsFinite) (hexceeds : ¬ config.Exceeds t) (h : config.run t = .ok u) :
    u.IsFinite :=
  isFinite_steps ht hconfig
    (fun n o before ho hbefore hover => hexceeds ⟨n, o, before, ho, hbefore, hover⟩) h

end TableSteps.Transform
