import Mathlib.Algebra.Group.Nat.Defs
import TableSteps.Json.Reading
import TableSteps.Operator
import TableSteps.Table.Basic
import TableSteps.Wire.Decoder

/-! # Finite numbers

The numbers of a table are meant to be finite: JSON has no others, and a cell is read as a finite
number or none. `FiniteLaws` says that numbers stay finite where they are only stored, in a key or
in JSON; what arithmetic does to them is told where they are computed. -/

namespace TableSteps

open Keyed Quantity WireQuantity

/-- Numbers that are stored and not computed with stay finite, and JSON keeps them. -/
class FiniteLaws (α : Type) [WireQuantity α] : Prop where
  isFinite_ofKey_key {x : α} : isFinite x = true → isFinite (ofKey (key x)) = true
  isFinite_ofNat {n : Nat} : n < 2 ^ 64 → isFinite (ofNat n : α) = true
  isFinite_ofInt {n : Int} : Json.fitsWord n = true → isFinite (ofInt n : α) = true
  isFinite_ofFloat {x : Float} : Binary64.isFinite x = true → isFinite (ofFloat x : α) = true
  ofJson?_toJson {x : α} : isFinite x = true → ofJson? (toJson x) = some x

/-- A value that a JSON document can hold: its whole numbers fit a word and its doubles are
finite. -/
inductive Json.Storable : Json → Prop where
  | null : Storable .null
  | bool (b : Bool) : Storable (.bool b)
  | int {n : Int} (h : fitsWord n = true) : Storable (.int n)
  | float {x : Float} (h : Binary64.isFinite x = true) : Storable (.float x)
  | str (s : String) : Storable (.str s)
  | arr {items : List Json} (h : ∀ j ∈ items, Storable j) : Storable (.arr items)
  | obj {fields : List (String × Json)} (h : ∀ field ∈ fields, Storable field.2) :
    Storable (.obj fields)

attribute [simp] Json.Storable.null Json.Storable.bool Json.Storable.str

@[simp] theorem Json.storable_int_iff {n : Int} : (int n).Storable ↔ fitsWord n = true :=
  ⟨fun h => by cases h with | int h => exact h, .int⟩

@[simp] theorem Json.storable_arr_iff {items : List Json} :
    (arr items).Storable ↔ ∀ j ∈ items, j.Storable :=
  ⟨fun h => by cases h with | arr h => exact h, .arr⟩

@[simp] theorem Json.storable_obj_iff {fields : List (String × Json)} :
    (obj fields).Storable ↔ ∀ field ∈ fields, field.2.Storable :=
  ⟨fun h => by cases h with | obj h => exact h, .obj⟩

variable {α : Type}

/-- A position past the end of a row has an empty cell. -/
theorem cellAt_eq_empty_or_mem (row : Row α) (p : Nat) :
    cellAt row p = .empty ∨ cellAt row p ∈ row := by
  unfold cellAt
  rw [List.getD_eq_getElem?_getD]
  cases hc : row[p]? with
  | none => exact .inl rfl
  | some c => exact .inr (List.mem_of_getElem? hc)

section Cells

variable [Quantity α]

/-- The cell holds no number, or a finite one. -/
def Cell.IsFinite (c : Cell α) : Prop := ∀ x, c = .number x → isFinite x = true

namespace Cell

theorem isFinite_empty : (empty : Cell α).IsFinite := fun _ hx => by cases hx

theorem isFinite_ofOption_iff {value : Option α} :
    (ofOption value).IsFinite ↔ ∀ x, value = some x → isFinite x = true := by
  cases value <;> simp [ofOption, IsFinite]

/-- A finite cell is read as a finite number, whether it holds a number or writes one. -/
theorem IsFinite.of_asNumber {c : Cell α} (h : c.IsFinite) {x : α} (hx : c.asNumber = some x) :
    isFinite x = true := by
  cases c with
  | number y =>
    cases hx
    exact h _ rfl
  | text s => exact (Option.filter_eq_some_iff.mp hx).2
  | empty | boolean b => cases hx

end Cell

/-- All numbers in the cells of the table are finite. -/
def Table.IsFinite (t : Table α) : Prop := ∀ row ∈ t.rows, ∀ c ∈ row, c.IsFinite

namespace Table

variable {t : Table α}

theorem IsFinite.cellAt (h : t.IsFinite) {row : Row α} (hrow : row ∈ t.rows) (p : Nat) :
    (cellAt row p).IsFinite := by
  rcases cellAt_eq_empty_or_mem row p with hc | hc
  · rw [hc]
    exact Cell.isFinite_empty
  · exact h row hrow _ hc

theorem IsFinite.withRows (h : t.IsFinite) {rows : List (Row α)}
    (hrows : ∀ row ∈ rows, row ∈ t.rows) : (t.withRows rows).IsFinite :=
  fun row hrow => h row (hrows row hrow)

end Table

/-- The operator takes two finite numbers to one that is not. -/
def Operator.Overflows (op : Operator) (x y : α) : Prop :=
  isFinite x = true ∧ isFinite y = true ∧ ∃ z, op.eval x y = some z ∧ isFinite z = false

/-- Finite operands have a finite result, or none, unless the operator overflows. -/
theorem Operator.isFinite_evalOption {op : Operator} {x? y? : Option α} {z : α}
    (hx : ∀ x, x? = some x → isFinite x = true) (hy : ∀ y, y? = some y → isFinite y = true)
    (hop : ∀ x y, x? = some x → y? = some y → ¬ op.Overflows x y)
    (hz : op.evalOption x? y? = some z) : isFinite z = true := by
  cases x? with
  | none => cases hz
  | some x =>
    cases y? with
    | none =>
      rw [evalOption_none_right] at hz
      cases hz
    | some y =>
      cases hfinite : isFinite z with
      | true => rfl
      | false => exact absurd ⟨hx x rfl, hy y rfl, z, hz, hfinite⟩ (hop x y rfl rfl)

end Cells

section Keys

variable [WireQuantity α] [FiniteLaws α]

theorem Cell.IsFinite.cell_key {c : Cell α} (h : c.IsFinite) : c.key.cell.IsFinite := by
  intro x hx
  cases c with
  | number y =>
    cases hx
    exact FiniteLaws.isFinite_ofKey_key (h y rfl)
  | empty | boolean b | text s => cases hx

/-- The cells of a key are those of a row, their numbers read back from codes. -/
theorem RowKey.isFinite_toCells {row : Row α} {positions : List Nat}
    (h : ∀ p, (cellAt row p).IsFinite) : ∀ c ∈ (ofRow row positions).toCells, c.IsFinite := by
  intro c hc
  simp only [toCells, ofRow, List.map_map, List.mem_map, Function.comp_apply] at hc
  obtain ⟨p, -, rfl⟩ := hc
  exact (h p).cell_key

end Keys

end TableSteps
