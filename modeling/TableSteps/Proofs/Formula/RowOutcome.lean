import TableSteps.Binary64.Quantity
import TableSteps.Proofs.Errors.Basic
import TableSteps.Proofs.Formula.RowSum

/-! # What a formula gives in a row

A formula reads its columns from left to right, and it reads all of them: neither a null nor a zero
divisor keeps a later cell from being looked at. So what it gives in a row can be told from the
cells of its columns and from its divisors. It fails at the first column whose cell is neither
missing nor a number; else it is null when a cell is missing or a divisor is zero, and it has a
value in all other cases. -/

namespace TableSteps

theorem find?_eraseDups {β : Type} [BEq β] [LawfulBEq β] (p : β → Bool) (xs : List β) :
    xs.eraseDups.find? p = xs.find? p := by
  match xs with
  | [] => rfl
  | x :: rest =>
    rw [List.eraseDups_cons, List.find?_cons, List.find?_cons]
    cases hx : p x with
    | true => rfl
    | false =>
      dsimp only
      rw [find?_eraseDups, List.find?_filter]
      -- What is taken out of the rest is `x` alone, which is not looked for.
      refine congrFun (congrArg List.find? (funext fun y => ?_)) rest
      by_cases hy : y = x
      · simp [hy, hx]
      · simp [hy]
termination_by xs.length
decreasing_by
  have := List.length_filter_le (fun y => !y == x) rest
  simp only [List.length_cons]
  omega

namespace Formula

open Quantity (isZero)

variable {α : Type}

/-- The divisors of a formula: what stands on the right of a division anywhere in it. -/
def Expression.divisors : Expression α → List (Expression α)
  | .number _ | .column _ => []
  | .negate operand => operand.divisors
  | .binary op left right =>
    (if op = .divide then [right] else []) ++ left.divisors ++ right.divisors

theorem Expression.mem_divisors_binary {op : Operator} {left right d : Expression α} :
    d ∈ (binary op left right).divisors ↔
      (op = .divide ∧ d = right) ∨ d ∈ left.divisors ∨ d ∈ right.divisors := by
  rw [divisors]
  split <;> simp [*]

variable [Quantity α] {cellOf cellOf' : String → Cell α}

/-! ## Node by node -/

theorem Expression.value_negate {operand : Expression α} :
    (negate operand).value cellOf = (operand.value cellOf).map (Option.map fun x => -x) := by
  rw [value]
  cases operand.value cellOf <;> rfl

theorem Expression.value_binary {op : Operator} {left right : Expression α} :
    (binary op left right).value cellOf = (do
      let x ← left.value cellOf
      let y ← right.value cellOf
      .ok (op.evalOption x y)) := by
  rw [value]
  cases left.value cellOf with
  | error e => rfl
  | ok x => cases right.value cellOf <;> rfl

theorem leafValue_eq_error_iff {name : String} {c : Cell α} {b : BadCell α} :
    leafValue name c = .error b ↔ ¬ Readable c ∧ b = ⟨name, c⟩ := by
  unfold leafValue Readable
  cases c.isMissing <;> cases c.asNumber <;> simp [eq_comm]

theorem leafValue_eq_none_iff {name : String} {c : Cell α} {v : Option α}
    (h : leafValue name c = .ok v) : v = none ↔ c.isMissing = true := by
  unfold leafValue at h
  cases hmissing : c.isMissing with
  | true =>
    rw [if_pos hmissing] at h
    cases h
    simp
  | false =>
    rw [if_neg (by simp [hmissing])] at h
    cases hx : c.asNumber with
    | none => simp [hx] at h
    | some x =>
      rw [hx] at h
      cases h
      simp

/-! ## Where it fails -/

/-- The first of some columns whose cell is neither missing nor a number. -/
def firstBad? (cellOf : String → Cell α) (names : List String) : Option (BadCell α) :=
  (names.find? fun name => !((cellOf name).isMissing || (cellOf name).asNumber.isSome)).map
    fun name => ⟨name, cellOf name⟩

theorem firstBad?_eq_none_iff {names : List String} :
    firstBad? cellOf names = none ↔ ∀ name ∈ names, Readable (cellOf name) := by
  simp only [firstBad?, Option.map_eq_none_iff, List.find?_eq_none, Bool.not_eq_true', Readable,
    Bool.not_eq_false]

theorem firstBad?_append {names others : List String} {b : BadCell α} :
    firstBad? cellOf (names ++ others) = some b ↔
      firstBad? cellOf names = some b ∨
        firstBad? cellOf names = none ∧ firstBad? cellOf others = some b := by
  unfold firstBad?
  rw [List.find?_append]
  cases names.find? fun name => !((cellOf name).isMissing || (cellOf name).asNumber.isSome) <;> simp

theorem firstBad?_eq_some_iff {names : List String} {b : BadCell α} :
    firstBad? cellOf names = some b ↔
      b.cell = cellOf b.column ∧ ¬ Readable (cellOf b.column) ∧
        ∃ before after, names = before ++ b.column :: after ∧
          ∀ name ∈ before, Readable (cellOf name) := by
  obtain ⟨column, cell⟩ := b
  simp only [firstBad?, Option.map_eq_some_iff, List.find?_eq_some_iff_append, BadCell.mk.injEq,
    Readable]
  constructor
  · rintro ⟨name, ⟨hbad, before, after, hnames, hbefore⟩, rfl, rfl⟩
    exact ⟨rfl, by simpa using hbad, before, after, hnames, by simpa using hbefore⟩
  · rintro ⟨rfl, hbad, before, after, hnames, hbefore⟩
    exact ⟨column, ⟨by simpa using hbad, before, after, hnames, by simpa using hbefore⟩, rfl, rfl⟩

/-- A formula fails at the first bad cell that stands at its leaves. -/
theorem Expression.value_eq_error_iff {e : Expression α} :
    ∀ {b : BadCell α}, e.value cellOf = .error b ↔ firstBad? cellOf e.leafNames = some b := by
  induction e with
  | number x => simp [value, leafNames, firstBad?]
  | column name =>
    intro b
    rw [value, leafValue_eq_error_iff, leafNames, firstBad?, Readable]
    cases hmissing : (cellOf name).isMissing <;> cases hnumber : (cellOf name).asNumber <;>
      simp [hmissing, hnumber, @eq_comm _ b]
  | negate operand ih =>
    intro b
    rw [value_negate, map_eq_error_iff, ih, leafNames]
  | binary op left right ihl ihr =>
    intro b
    rw [value_binary, leafNames, firstBad?_append, bind_eq_error_iff, ihl]
    cases hleft : left.value cellOf with
    | error b' => simp [ihl.mp hleft]
    | ok x =>
      have hnone : firstBad? cellOf left.leafNames = none :=
        Option.eq_none_iff_forall_ne_some.mpr fun b' hb' => by
          cases hleft.symm.trans (ihl.mpr hb')
      simp [hnone, bind_eq_error_iff, ihr]

/-! ## Where it is null -/

/-- A formula that does not fail is null where a cell is missing or a divisor is zero. -/
theorem Expression.value_eq_none_iff {e : Expression α} :
    ∀ {v : Option α}, e.value cellOf = .ok v →
      (v = none ↔ (∃ name ∈ e.leafNames, (cellOf name).isMissing = true) ∨
        ∃ d ∈ e.divisors, ∃ z, d.value cellOf = .ok (some z) ∧ isZero z = true) := by
  induction e with
  | number x =>
    rintro v ⟨rfl⟩
    simp [leafNames, divisors]
  | column name =>
    intro v h
    simp [leafValue_eq_none_iff h, leafNames, divisors]
  | negate operand ih =>
    intro v h
    rw [value_negate] at h
    obtain ⟨x, hx, rfl⟩ := map_eq_ok_iff.mp h
    rw [Option.map_eq_none_iff, ih hx, leafNames, divisors]
  | binary op left right ihl ihr =>
    intro v h
    rw [value_binary] at h
    obtain ⟨x, hx, h⟩ := bind_eq_ok_iff.mp h
    obtain ⟨y, hy, h⟩ := bind_eq_ok_iff.mp h
    cases h
    have hright : (∃ z, right.value cellOf = .ok (some z) ∧ isZero z = true) ↔
        ∃ z, y = some z ∧ isZero z = true := by
      simp only [hy, Except.ok.injEq]
    rw [Operator.evalOption_eq_none_iff, ihl hx, ihr hy, ← hright]
    simp only [leafNames, List.mem_append, mem_divisors_binary, or_and_right, exists_or]
    have hdivisor : (∃ d, (op = .divide ∧ d = right) ∧
        ∃ z, d.value cellOf = .ok (some z) ∧ isZero z = true) ↔
          op = .divide ∧ ∃ z, right.value cellOf = .ok (some z) ∧ isZero z = true :=
      ⟨fun ⟨_, ⟨hop, rfl⟩, hzero⟩ => ⟨hop, hzero⟩, fun ⟨hop, hzero⟩ => ⟨right, ⟨hop, rfl⟩, hzero⟩⟩
    rw [hdivisor]
    exact Iff.of_eq (by ac_rfl)

/-! ## What it reads -/

/-- A formula reads the columns at its leaves and no others. -/
theorem Expression.value_congr {e : Expression α}
    (h : ∀ name ∈ e.leafNames, cellOf name = cellOf' name) : e.value cellOf = e.value cellOf' := by
  induction e with
  | number x => rfl
  | column name => rw [value, value, h name (List.mem_singleton_self name)]
  | negate operand ih => rw [value_negate, value_negate, ih h]
  | binary op left right ihl ihr =>
    rw [value_binary, value_binary, ihl fun name hname => h name (List.mem_append_left _ hname),
      ihr fun name hname => h name (List.mem_append_right _ hname)]

/-! ## All together -/

omit [Quantity α] in
theorem bind_eq_ok_iff_mem {columns : List String} {e : Expression α} {place : Place} :
    bind place columns e = .ok () ↔ ∀ name ∈ e.columns, name ∈ columns := by
  refine ⟨fun h => ?_, fun h => bind_of_mem h place⟩
  unfold bind at h
  split at h
  · cases h
  · rename_i hnone
    simpa using List.find?_eq_none.mp hnone

omit [Quantity α] in
theorem Expression.mem_columns {e : Expression α} {name : String} :
    name ∈ e.columns ↔ name ∈ e.leafNames :=
  List.mem_eraseDups

theorem firstBad?_columns {e : Expression α} :
    firstBad? cellOf e.columns = firstBad? cellOf e.leafNames := by
  rw [firstBad?, Expression.columns, find?_eraseDups, firstBad?]

end Formula

namespace Formula

open Quantity (isZero)

variable {α : Type} [WireQuantity α]

/-- Over a table that has its columns, a formula fails in a row just when a cell that it reads is
neither missing nor a number, and tells the first such column. Otherwise it is null when a cell is
missing, and else just when a divisor is zero. It reads no other columns. -/
theorem row_outcome (e : Expression α) (place : Place) (columns : List String) :
    (bind place columns e = .ok () ↔ ∀ name ∈ e.columns, name ∈ columns) ∧
    (bind place columns e = .ok () → ∀ row : Row α, row.length = columns.length →
      ((∃ b, rowValue columns e row = .error b) ↔
        ∃ name ∈ e.columns, ¬ Readable (cellOf columns row name)) ∧
      (∀ b, rowValue columns e row = .error b →
        b.error.details.get? "column" = some (.str b.column) ∧
          b.cell = cellOf columns row b.column ∧ ¬ Readable (cellOf columns row b.column) ∧
          ∃ before after, e.columns = before ++ b.column :: after ∧
            ∀ name ∈ before, Readable (cellOf columns row name)) ∧
      ((∀ name ∈ e.columns, Readable (cellOf columns row name)) →
        ((∃ name ∈ e.columns, (cellOf columns row name).isMissing = true) →
          rowValue columns e row = .ok none) ∧
        ((∀ name ∈ e.columns, (cellOf columns row name).isMissing = false) →
          (rowValue columns e row = .ok none ↔
            ∃ d ∈ e.divisors, ∃ z, rowValue columns d row = .ok (some z) ∧ isZero z = true) ∧
          (rowValue columns e row ≠ .ok none → ∃ v, rowValue columns e row = .ok (some v))))) ∧
    ∀ (columns' : List String) (row row' : Row α),
      (∀ name ∈ e.columns, cellOf columns row name = cellOf columns' row' name) →
        rowValue columns e row = rowValue columns' e row' := by
  refine ⟨bind_eq_ok_iff_mem, fun _ row _ => ⟨?_, ?_, ?_⟩, ?_⟩
  · simp only [rowValue, Expression.value_eq_error_iff, ← firstBad?_columns]
    simp only [← Option.isSome_iff_exists, Option.isSome_iff_ne_none, ne_eq,
      firstBad?_eq_none_iff, Classical.not_forall, exists_prop]
  · intro b hb
    have hfirst := Expression.value_eq_error_iff.mp hb
    rw [← firstBad?_columns] at hfirst
    refine ⟨?_, firstBad?_eq_some_iff.mp hfirst⟩
    rw [StepError.get?_details_of_cause (by decide) (by decide) (by decide)]
    rfl
  · intro hreadable
    obtain ⟨v, hv⟩ : ∃ v, e.value (cellOf columns row) = .ok v :=
      Expression.value_of_readable fun name hname =>
        hreadable name (Expression.mem_columns.mpr hname)
    have hnull := Expression.value_eq_none_iff hv
    simp only [← Expression.mem_columns] at hnull
    refine ⟨fun hmissing => ?_, fun hpresent => ⟨?_, ?_⟩⟩
    · rw [rowValue, hv, hnull.mpr (.inl hmissing)]
    · have hnone : ¬ ∃ name ∈ e.columns, (cellOf columns row name).isMissing = true := by
        rintro ⟨name, hname, hmissing⟩
        cases hmissing.symm.trans (hpresent name hname)
      rw [rowValue, hv, Except.ok.injEq, hnull, or_iff_right hnone]
      rfl
    · intro hvalue
      cases v with
      | none => exact absurd hv hvalue
      | some x => exact ⟨x, hv⟩
  · intro columns' row row' hcells
    exact Expression.value_congr fun name hname => hcells name (Expression.mem_columns.mpr hname)

/-- A zero divisor makes a quotient null, and the sum with it; but it does not hide the text that
the sum meets later. -/
theorem row_outcome_quotient :
    let e : Expression Float :=
      .binary .add (.binary .divide (.column "a") (.column "b")) (.column "c")
    let columns := ["a", "b", "c"]
    rowValue columns e [.number 1.0, .number 0.0, .number 2.0] = .ok none ∧
      ∃ b, rowValue columns e [.number 1.0, .number 0.0, .text "x"] = .error b ∧
        b.error.details.get? "column" = some (.str "c") := by
  intro e columns
  obtain ⟨hbind, hrow, -⟩ := row_outcome e (.root "formula_text") columns
  have hrow := hrow (hbind.mpr (by decide))
  have hreadable : ∀ name ∈ e.columns,
      ((cellOf columns [.number 1.0, .number 0.0, .number 2.0] name).isMissing ||
        (cellOf columns [.number 1.0, .number 0.0, .number 2.0] name).asNumber.isSome) = true := by
    decide
  have hpresent : ∀ name ∈ e.columns,
      (cellOf columns [.number 1.0, .number 0.0, .number 2.0] name).isMissing = false := by decide
  obtain ⟨-, -, hnumbers⟩ := hrow [.number 1.0, .number 0.0, .number 2.0] rfl
  obtain ⟨hnull, -⟩ := (hnumbers hreadable).2 hpresent
  obtain ⟨-, hfirst, -⟩ := hrow [.number 1.0, .number 0.0, .text "x"] rfl
  have hbad : rowValue columns e [.number 1.0, .number 0.0, .text "x"] = .error ⟨"c", .text "x"⟩ :=
    rfl
  exact ⟨hnull.mpr ⟨.column "b", by decide, 0.0, rfl, rfl⟩, _, hbad, (hfirst _ hbad).1⟩

end Formula
end TableSteps
