import Mathlib.Data.Fintype.EquivFin
import TableSteps.Proofs.Binary64.Lawful
import TableSteps.Proofs.Formula.RowSum
import TableSteps.Proofs.Reduction.Parts
import TableSteps.Proofs.Transform.SingleAssignment

/-! # Formulas written as operations

A formula without a minus sign can be written as operations of a transform: one for each of its
operators, those of the operands before it, each into a new column. The column of the outermost
operator, which is the last, holds the value of the formula in every row, and its sum is the sum of
the formula over the table. No law of arithmetic is needed: both ways do the same operations on the
same numbers.

The proof reads the finished row. An operation has left the value of its formula there, so by
induction on the tree every operand has the value of the part of the formula that it stands for. -/

namespace TableSteps

/-- A list made of two others, each in its own order. -/
inductive Interleaved {β : Type} : List β → List β → List β → Prop
  | nil : Interleaved [] [] []
  | left {x : β} {xs ys zs : List β} (h : Interleaved xs ys zs) : Interleaved (x :: xs) ys (x :: zs)
  | right {y : β} {xs ys zs : List β} (h : Interleaved xs ys zs) :
    Interleaved xs (y :: ys) (y :: zs)

namespace Interleaved

variable {β : Type} {xs ys zs : List β}

theorem append (xs ys : List β) : Interleaved xs ys (xs ++ ys) := by
  induction xs with
  | nil =>
    induction ys with
    | nil => exact .nil
    | cons y rest ih => exact ih.right
  | cons x rest ih => exact ih.left

theorem perm (h : Interleaved xs ys zs) : zs.Perm (xs ++ ys) := by
  induction h with
  | nil => exact .nil
  | left _ ih => exact ih.cons _
  | right _ ih => exact (ih.cons _).trans List.perm_middle.symm

end Interleaved

namespace Formula

open Transform Quantity

variable {α : Type}

namespace Expression

/-- No part of the formula has a minus sign before it. -/
def WithoutMinus : Expression α → Prop
  | .number _ | .column _ => True
  | .binary _ left right => left.WithoutMinus ∧ right.WithoutMinus
  | .negate _ => False

/-- The number of operators between two operands. -/
def operators : Expression α → Nat
  | .number _ | .column _ => 0
  | .binary _ left right => left.operators + right.operators + 1
  | .negate operand => operand.operators

end Expression

/-- A formula as operations, and the operand that stands for it once they have run. The operations
of the two sides of an operator may be mixed. -/
inductive Written : Expression α → List (Operation α) → Operand α → Prop
  | number (x : α) : Written (.number x) [] (.literal x)
  | column (name : String) : Written (.column name) [] (.named name)
  | binary {left right : Expression α} {first second both : List (Operation α)} {x y : Operand α}
    (op : Operator) (intent : Intent) (target : String) (hleft : Written left first x)
    (hright : Written right second y) (hboth : Interleaved first second both) :
    Written (.binary op left right) (both ++ [⟨intent, target, .formula x op y⟩]) (.named target)

variable {e : Expression α} {operations : List (Operation α)} {operand : Operand α}

namespace Written

/-- One operation for each operator. -/
theorem length_eq (h : Written e operations operand) : operations.length = e.operators := by
  induction h with
  | number x => rfl
  | column name => rfl
  | binary op intent target _ _ hboth ihl ihr =>
    rw [List.length_append, hboth.perm.length_eq, List.length_append, ihl, ihr]
    rfl

/-- The operand of a formula with an operator is the column that is written last. -/
theorem exists_last (h : Written e operations operand) (hoperators : 0 < e.operators) :
    ∃ before intent target x op y, operand = .named target ∧
      operations = before ++ [⟨intent, target, .formula x op y⟩] := by
  cases h with
  | number x => cases hoperators
  | column name => cases hoperators
  | binary op intent target _ _ _ => exact ⟨_, intent, target, _, op, _, rfl, rfl⟩

end Written

/-- Every formula without a minus sign can be written, with new columns for whatever columns. -/
theorem exists_written (h : e.WithoutMinus) :
    ∀ columns, ∃ operations operand, Written e operations operand ∧ Fresh columns operations := by
  induction e with
  | number x => exact fun _ => ⟨[], .literal x, .number x, List.nodup_nil, by simp⟩
  | column name => exact fun _ => ⟨[], .named name, .column name, List.nodup_nil, by simp⟩
  | negate _ => exact h.elim
  | binary op left right ihl ihr =>
    intro columns
    obtain ⟨first, x, hleft, hfirst⟩ := ihl h.1 columns
    obtain ⟨second, y, hright, hsecond⟩ := ihr h.2 (columnsAfterAll columns first)
    obtain ⟨target, htarget⟩ :=
      Infinite.exists_notMem_finset (columnsAfterAll columns (first ++ second)).toFinset
    rw [List.mem_toFinset] at htarget
    exact ⟨_, _, .binary op .addSubject target hleft hright (.append first second),
      (hfirst.append hsecond).append ⟨List.nodup_singleton _, by simpa using htarget⟩⟩

/-! ## What is written can be run -/

variable {columns : List String}

theorem readsPresent_of_interleaved {first second both : List (Operation α)}
    (h : Interleaved first second both) (hfirst : ReadsPresent columns first)
    (hsecond : ReadsPresent columns second) : ReadsPresent columns both := by
  have hgrow {columns : List String} {target : String} :
      ∀ name ∈ columns, name ∈ columnsAfter columns target :=
    fun _ hname => mem_columnsAfter_iff.mpr (.inl hname)
  induction h generalizing columns with
  | nil => trivial
  | left _ ih => exact ⟨hfirst.1, ih hfirst.2 (hsecond.mono hgrow)⟩
  | right _ ih => exact ⟨hsecond.1, ih (hfirst.mono hgrow) hsecond.2⟩

/-- Every operation of a written formula finds its operands, as does what stands for it. -/
theorem Written.readsPresent (h : Written e operations operand)
    (hcolumns : ∀ name ∈ e.leafNames, name ∈ columns) :
    ReadsPresent columns operations ∧ Present (columnsAfterAll columns operations) operand := by
  induction h with
  | number x => exact ⟨trivial, trivial⟩
  | column name => exact ⟨trivial, hcolumns name (List.mem_singleton_self name)⟩
  | @binary left right first second both x y op intent target _ _ hboth ihl ihr =>
    obtain ⟨hfirst, hx⟩ := ihl fun name hname => hcolumns name (List.mem_append_left _ hname)
    obtain ⟨hsecond, hy⟩ := ihr fun name hname => hcolumns name (List.mem_append_right _ hname)
    have hfound {part : List (Operation α)} {z : Operand α} (hpart : ∀ o ∈ part, o ∈ both)
        (hz : Present (columnsAfterAll columns part) z) :
        Present (columnsAfterAll columns both) z := by
      refine hz.mono fun name hname => ?_
      rw [mem_columnsAfterAll_iff] at hname ⊢
      refine hname.imp_right fun hname => ?_
      obtain ⟨o, ho, rfl⟩ := List.mem_map.mp hname
      exact List.mem_map_of_mem (hpart o ho)
    have hboth' : ∀ o, o ∈ both ↔ o ∈ first ∨ o ∈ second := fun o => by
      rw [hboth.perm.mem_iff, List.mem_append]
    constructor
    · have hread := readsPresent_of_interleaved hboth hfirst hsecond
      refine hread.append ⟨⟨x, op, y, rfl, ?_⟩, trivial⟩
      exact ⟨hfound (fun o ho => (hboth' o).mpr (.inl ho)) hx,
        hfound (fun o ho => (hboth' o).mpr (.inr ho)) hy⟩
    · exact mem_columnsAfterAll_iff.mpr (.inr (by simp))

/-! ## What is written is computed -/

section Values

variable [Quantity α] [LawfulQuantity α]

/-- Of a readable cell a formula and an operation see the same number. -/
theorem leafValue_eq_asNumber {name : String} {c : Cell α} (h : Readable c) :
    leafValue name c = .ok c.asNumber := by
  unfold leafValue
  split
  · rename_i hmissing
    rw [Cell.asNumber_of_isMissing hmissing]
  · rename_i hmissing
    obtain ⟨x, hx⟩ := Option.isSome_iff_exists.mp (by simpa [Readable, hmissing] using h)
    rw [hx]

/-- In a row that solves all operations of a written formula, its operand has its value. -/
theorem Written.value_eq {all : List (Operation α)} {row : Row α}
    (h : Written e operations operand) (hall : ∀ o ∈ operations, o ∈ all)
    (hfresh : Fresh columns all) (hreads : ReadsPresent columns all)
    (hrow : row.length = columns.length) (hcolumns : ∀ name ∈ e.leafNames, name ∈ columns)
    (hreadable : ∀ name ∈ e.leafNames, Readable (cellOf columns row name)) :
    rowValue columns e row = .ok (valueAfter columns all row operand) := by
  induction h with
  | number x => rfl
  | column name =>
    have hname := List.mem_singleton_self name
    have hpresent : Present columns (.named name : Operand α) := hcolumns name hname
    rw [valueAfter_eq hfresh hrow hpresent, operandValue?_named (hcolumns name hname)]
    exact leafValue_eq_asNumber (hreadable name hname)
  | @binary left right first second both x y op intent target _ _ hboth ihl ihr =>
    have hmem : ∀ o, o ∈ first ∨ o ∈ second → o ∈ all := fun o ho =>
      hall o (List.mem_append_left _ (hboth.perm.mem_iff.mpr (List.mem_append.mpr ho)))
    have hlast : ⟨intent, target, .formula x op y⟩ ∈ all := hall _ (by simp)
    have hx := ihl (fun o ho => hmem o (.inl ho))
      (fun name hname => hcolumns name (List.mem_append_left _ hname))
      (fun name hname => hreadable name (List.mem_append_left _ hname))
    have hy := ihr (fun o ho => hmem o (.inr ho))
      (fun name hname => hcolumns name (List.mem_append_right _ hname))
      (fun name hname => hreadable name (List.mem_append_right _ hname))
    have hvalue := valueAfter_formula hfresh hreads hrow hlast rfl
    unfold rowValue at hx hy ⊢
    rw [Expression.value, hx, hy, hvalue]

end Values

/-! ## The last column -/

variable [WireQuantity α] {t : Table α}

/-- A formula that has a value in every row is summed as the cells with its values are. -/
theorem sum_ofCells_eq_total {value : Row α → Option α}
    (h : ∀ row ∈ t.rows, rowValue t.columns e row = .ok (value row)) :
    (Tally.ofCells (t.rows.map fun row => .ofOption (value row))).sum = total t e := by
  rw [Tally.sum_ofCells, Tally.numbersIn_ofOption, List.foldl_filterMap]
  refine List.foldl_ext _ _ _ fun sum row hrow => ?_
  rw [h row hrow]
  cases value row <;> rfl

variable [LawfulQuantity α]

/-- A formula without minus signs over numeric columns can be written as operations, and however
it is written, the last column has its value in every row and its sum over the table. -/
theorem written_computes (ht : t.WellFormed) (hminus : e.WithoutMinus)
    (hoperators : 0 < e.operators)
    (hnumeric : ∀ name ∈ e.columns, t.isNumericColumn name = true) :
    (∃ operations operand, Written e operations operand ∧ Fresh t.columns operations) ∧
    ∀ operations operand, Written e operations operand → Fresh t.columns operations →
      ∃ u result cells total,
        operations.length = e.operators ∧ operand = .named result ∧
        (Transform.mk operations).run t = .ok u ∧
        u.columns = t.columns ++ operations.map Operation.target ∧
        u.columns.getLast? = some result ∧ u.columnValues? result = some cells ∧
        (∀ place, bind place t.columns e = .ok ()) ∧
        List.Forall₂ (fun row cell =>
          ∃ v, rowValue t.columns e row = .ok v ∧ cell = .ofOption v) t.rows cells ∧
        sum t e = .ok total ∧ (Tally.ofCells cells).result .sum = some total := by
  have hbound : ∀ name ∈ e.columns, name ∈ t.columns := fun name hname =>
    mem_columns_of_isNumericColumn (hnumeric name hname)
  have hpresent : ∀ name ∈ e.leafNames, name ∈ t.columns := fun name hname =>
    hbound name (List.mem_eraseDups.mpr hname)
  refine ⟨exists_written hminus t.columns, fun operations operand hwritten hfresh => ?_⟩
  obtain ⟨before, intent, result, x, op, y, rfl, hlast⟩ := hwritten.exists_last hoperators
  have hmem : ⟨intent, result, .formula x op y⟩ ∈ operations := by simp [hlast]
  have hreads := (hwritten.readsPresent hpresent).1
  obtain ⟨u, hu, hcolumns⟩ := exists_run_of_fresh hfresh hreads
  have hcells := columnValues?_of_run ht hfresh hreads hu hmem rfl
  have hvalue : ∀ row ∈ t.rows, rowValue t.columns e row =
      .ok (valueAfter t.columns operations row (.named result)) := fun row hrow =>
    hwritten.value_eq (fun _ ho => ho) hfresh hreads (ht.width row hrow) hpresent fun name hname =>
      readable_of_isNumericColumn (hnumeric name (List.mem_eraseDups.mpr hname)) hrow
  refine ⟨u, result, _, total t e, hwritten.length_eq, rfl, hu, hcolumns, ?_, hcells, ?_, ?_, ?_,
    ?_⟩
  · rw [hcolumns, hlast]
    simp
  · exact bind_of_mem hbound
  · exact List.forall₂_map_right_iff.mpr
      (List.forall₂_same.mpr fun row hrow => ⟨_, hvalue row hrow, rfl⟩)
  · exact sum_eq_total hnumeric
  · exact congrArg some (sum_ofCells_eq_total hvalue)

/-- A quotient and two more: a value, a division by zero, and a missing cell. -/
theorem written_computes_ratio :
    let t : Table Float := ⟨["a", "b"],
      [[.number 6.0, .number 2.0], [.number 1.0, .number 0.0], [.empty, .text "3"]]⟩
    let e : Expression Float :=
      .binary .add (.binary .divide (.column "a") (.column "b")) (.number 2.0)
    let ratio : Operation Float :=
      ⟨.addSubject, "ratio", .formula (.named "a") .divide (.named "b")⟩
    let more : Operation Float :=
      ⟨.addSubject, "more", .formula (.named "ratio") .add (.literal 2.0)⟩
    ∃ u cells total, (Transform.mk [ratio, more]).run t = .ok u ∧
      u.columnValues? "more" = some cells ∧
      List.Forall₂ (fun row cell =>
        ∃ v, rowValue t.columns e row = .ok v ∧ cell = .ofOption v) t.rows cells ∧
      sum t e = .ok total ∧ (Tally.ofCells cells).result .sum = some total := by
  intro t e ratio more
  have hnumeric : ∀ name ∈ e.columns, t.isNumericColumn name = true := by
    intro name hname
    have hname : name = "a" ∨ name = "b" := by
      simpa [e, Expression.columns, Expression.leafNames] using List.mem_eraseDups.mp hname
    rcases hname with rfl | rfl <;> rfl
  have hwritten : Written e [ratio, more] (.named "more") :=
    .binary .add .addSubject "more" (.binary .divide .addSubject "ratio" (.column "a") (.column "b")
      .nil) (.number 2.0) (.left .nil)
  have hfresh : Fresh t.columns [ratio, more] := ⟨by decide, by decide⟩
  have hminus : e.WithoutMinus := ⟨⟨trivial, trivial⟩, trivial⟩
  obtain ⟨u, result, cells, total, -, hresult, hu, -, -, hcells, -, hvalues, hsum, htotal⟩ :=
    (written_computes ⟨by decide, by simp [t]⟩ hminus (by decide) hnumeric).2 _ _ hwritten hfresh
  cases hresult
  exact ⟨u, cells, total, hu, hcells, hvalues, hsum, htotal⟩

end Formula
end TableSteps
