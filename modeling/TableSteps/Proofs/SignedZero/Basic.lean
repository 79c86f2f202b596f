import TableSteps.Binary64.Quantity
import TableSteps.Chart.Column
import TableSteps.Operator
import TableSteps.Proofs.ListPairs
import TableSteps.Proofs.Quantity.Laws
import TableSteps.Wire.Record

/-! # Equal but for the sign of a zero

There are two zeros among the numbers, and a calculation may leave either. `Agree` says of numbers,
cells, tables and documents that they are the same once the two are taken for one.
`SignedZeroLaws` lists what a number may be asked without telling the zeros apart: all arithmetic
but a quotient by a zero, the numerical order, and the key. -/

namespace TableSteps

variable {α : Type}

namespace Quantity

variable [Quantity α] {x y z : α}

/-- The same number, or two zeros. -/
def Agree (x y : α) : Prop := x = y ∨ isZero x = true ∧ isZero y = true

theorem Agree.refl (x : α) : Agree x x := .inl rfl

theorem Agree.symm (h : Agree x y) : Agree y x := by
  rcases h with rfl | ⟨hx, hy⟩
  · exact .refl x
  · exact .inr ⟨hy, hx⟩

theorem Agree.trans (h : Agree x y) (h' : Agree y z) : Agree x z := by
  rcases h with rfl | ⟨hx, hy⟩
  · exact h'
  · rcases h' with rfl | ⟨-, hz⟩
    · exact .inr ⟨hx, hy⟩
    · exact .inr ⟨hx, hz⟩

theorem rel_agree_refl (x? : Option α) : Option.Rel Agree x? x? := by
  cases x? with
  | none => exact .none
  | some x => exact .some (.refl x)

theorem Agree.isZero_eq (h : Agree x y) : isZero x = isZero y := by
  rcases h with rfl | ⟨hx, hy⟩
  · rfl
  · rw [hx, hy]

theorem Agree.eq_of_not_isZero (h : Agree x y) (hx : isZero x = false) : x = y := by
  rcases h with rfl | ⟨hzero, -⟩
  · rfl
  · cases hx.symm.trans hzero

end Quantity

/-! ## Documents -/

/-- The same document, once zeros of either sign are taken for one. -/
inductive Json.Agree : Json → Json → Prop where
  | refl (j : Json) : Agree j j
  | float {x y : Float} (h : Quantity.Agree x y) : Agree (.float x) (.float y)
  | arr {items items' : List Json} (h : List.Forall₂ Agree items items') :
    Agree (.arr items) (.arr items')
  | obj {fields fields' : List (String × Json)}
    (hnames : fields.map Prod.fst = fields'.map Prod.fst)
    (h : List.Forall₂ Agree (fields.map Prod.snd) (fields'.map Prod.snd)) :
    Agree (.obj fields) (.obj fields')

namespace Json

/-- Fields with the same names and with values that agree. -/
def FieldsAgree (fields fields' : List (String × Json)) : Prop :=
  List.Forall₂ (fun a b => a.1 = b.1 ∧ Agree a.2 b.2) fields fields'

theorem FieldsAgree.refl (fields : List (String × Json)) : FieldsAgree fields fields :=
  List.forall₂_same.mpr fun (_, j) _ => ⟨rfl, .refl j⟩

theorem FieldsAgree.cons {name : String} {j j' : Json} {fields fields' : List (String × Json)}
    (h : j.Agree j') (hrest : FieldsAgree fields fields') :
    FieldsAgree ((name, j) :: fields) ((name, j') :: fields') :=
  List.Forall₂.cons ⟨rfl, h⟩ hrest

theorem FieldsAgree.append {fields fields' others others' : List (String × Json)}
    (h : FieldsAgree fields fields') (hothers : FieldsAgree others others') :
    FieldsAgree (fields ++ others) (fields' ++ others') :=
  List.rel_append h hothers

theorem FieldsAgree.insertEntry {name : String} {j j' : Json}
    {fields fields' : List (String × Json)} (h : j.Agree j') (hfields : FieldsAgree fields fields') :
    FieldsAgree (Dictionary.insertEntry name j fields) (Dictionary.insertEntry name j' fields') := by
  induction hfields with
  | nil => exact .cons h (.refl [])
  | @cons a b rest rest' hfirst hrest ih =>
    obtain ⟨k, v⟩ := a
    obtain ⟨_, v'⟩ := b
    obtain ⟨rfl, hv⟩ := hfirst
    unfold Dictionary.insertEntry
    split
    · exact .cons h (.cons hv hrest)
    · split
      · exact .cons h hrest
      · exact .cons hv ih

theorem FieldsAgree.foldl_insert {fields fields' : List (String × Json)}
    (h : FieldsAgree fields fields') :
    ∀ {d d' : Dictionary Json}, FieldsAgree d.entries d'.entries →
      FieldsAgree (fields.foldl (fun d e => d.insert e.1 e.2) d).entries
        (fields'.foldl (fun d e => d.insert e.1 e.2) d').entries := by
  induction h with
  | nil => exact fun hd => hd
  | @cons a b rest rest' hfirst _ ih =>
    intro d d' hd
    obtain ⟨k, v⟩ := a
    obtain ⟨_, v'⟩ := b
    obtain ⟨rfl, hv⟩ := hfirst
    exact ih (hd.insertEntry hv)

theorem Agree.record {fields fields' : List (String × Json)} (h : FieldsAgree fields fields') :
    (record fields).Agree (record fields') := by
  have hentries := h.foldl_insert (d := .empty) (.refl Dictionary.empty.entries)
  refine .obj ?_ ?_
  · exact map_eq_map_iff_forall₂.mpr (hentries.imp fun _ _ h => h.1)
  · rw [List.forall₂_map_left_iff, List.forall₂_map_right_iff]
    exact hentries.imp fun _ _ h => h.2

end Json

/-! ## Laws -/

open Keyed Quantity WireQuantity

/-- What does not tell zeros of either sign apart. -/
class SignedZeroLaws (α : Type) [WireQuantity α] : Prop extends TotalOrderLaws α where
  agree_add {x x' y y' : α} : Agree x x' → Agree y y' → Agree (x + y) (x' + y')
  agree_sub {x x' y y' : α} : Agree x x' → Agree y y' → Agree (x - y) (x' - y')
  agree_mul {x x' y y' : α} : Agree x x' → Agree y y' → Agree (x * y) (x' * y')
  agree_div {x x' y : α} : Agree x x' → Agree (x / y) (x' / y)
  agree_neg {x x' : α} : Agree x x' → Agree (-x) (-x')
  isNaN_eq {x x' : α} : Agree x x' → isNaN x = isNaN x'
  isFinite_eq {x x' : α} : Agree x x' → isFinite x = isFinite x'
  lt_eq {x x' y y' : α} : Agree x x' → Agree y y' → lt x y = lt x' y'
  eqv_eq {x x' y y' : α} : Agree x x' → Agree y y' → eqv x y = eqv x' y'
  key_eq_key_iff {x x' : α} : key x = key x' ↔ Agree x x'
  /-- In the total order no number stands between two zeros. -/
  agree_of_totalLe {x x' y y' : α} : Agree x x' → Agree y y' → totalLe x y = true →
    totalLe y' x' = true → Agree x y
  agree_toJson {x x' : α} : Agree x x' → (toJson x).Agree (toJson x')

/-- Numerical equality leaves nothing apart but the two zeros. -/
class EqualityLaws (α : Type) [Quantity α] : Prop where
  agree_of_eqv {x y : α} : eqv x y = true → Agree x y

open SignedZeroLaws

section Numbers

variable [WireQuantity α] [SignedZeroLaws α] {x x' y y' : α} {x? x'? y? y'? : Option α}

theorem Quantity.le_eq (hx : Agree x x') (hy : Agree y y') : le x y = le x' y' := by
  rw [le, le, lt_eq hx hy, eqv_eq hx hy]

theorem Quantity.agree_least (hx : Agree x x') (hy : Agree y y') :
    Agree (least x y) (least x' y') := by
  unfold least
  rw [isNaN_eq hx, isNaN_eq hy, lt_eq hy hx]
  repeat' split
  all_goals assumption

theorem Quantity.agree_greatest (hx : Agree x x') (hy : Agree y y') :
    Agree (greatest x y) (greatest x' y') := by
  unfold greatest
  rw [isNaN_eq hx, isNaN_eq hy, lt_eq hx hy]
  repeat' split
  all_goals assumption

/-- A number is equal to those that it shares its key with; what is no number equals nothing. -/
theorem Quantity.eqv_iff_key_eq [LawfulQuantity α] [EqualityLaws α] (hx : isNaN x = false) :
    eqv x y = true ↔ key x = key y := by
  rw [key_eq_key_iff]
  refine ⟨EqualityLaws.agree_of_eqv, fun h => ?_⟩
  have hrefl : eqv x x = true := LawfulQuantity.eqv_of_not_lt hx hx
    (LawfulQuantity.lt_irrefl x) (LawfulQuantity.lt_irrefl x)
  rw [← eqv_eq (.refl x) h, hrefl]

/-- A quotient is asked for only once the divisor is known to be no zero. -/
theorem Operator.rel_eval (op : Operator) (hx : Agree x x') (hy : Agree y y') :
    Option.Rel Agree (op.eval x y) (op.eval x' y') := by
  cases op with
  | add => exact .some (agree_add hx hy)
  | subtract => exact .some (agree_sub hx hy)
  | multiply => exact .some (agree_mul hx hy)
  | divide =>
    unfold eval
    dsimp only
    rw [← hy.isZero_eq]
    cases hzero : isZero y with
    | true => exact .none
    | false =>
      obtain rfl := hy.eq_of_not_isZero hzero
      exact .some (agree_div hx)

theorem Operator.rel_evalOption (op : Operator) (hx : Option.Rel Agree x? x'?)
    (hy : Option.Rel Agree y? y'?) :
    Option.Rel Agree (op.evalOption x? y?) (op.evalOption x'? y'?) := by
  cases hx with
  | none => exact .none
  | some hx =>
    cases hy with
    | none => exact .none
    | some hy => exact op.rel_eval hx hy

theorem WireQuantity.agree_optionToJson (h : Option.Rel Agree x? x'?) :
    (optionToJson x?).Agree (optionToJson x'?) := by
  cases h with
  | none => exact .refl _
  | some h => exact agree_toJson h

end Numbers

/-! ## Cells -/

section Cells

variable [Quantity α]

/-- The same cell, or two cells with numbers that agree. -/
inductive Cell.Agree : Cell α → Cell α → Prop where
  | refl (c : Cell α) : Agree c c
  | number {x y : α} (h : Quantity.Agree x y) : Agree (.number x) (.number y)

/-- The same columns, with cells that agree. -/
structure Table.Agree (t u : Table α) : Prop where
  columns : t.columns = u.columns
  rows : List.Forall₂ (List.Forall₂ Cell.Agree) t.rows u.rows

namespace Cell

theorem agree_ofOption {x? y? : Option α} (h : Option.Rel Quantity.Agree x? y?) :
    (ofOption x?).Agree (ofOption y?) := by
  cases h with
  | none => exact .refl _
  | some h => exact .number h

variable {c d : Cell α}

theorem Agree.asNumber (h : c.Agree d) : Option.Rel Quantity.Agree c.asNumber d.asNumber := by
  cases h with
  | refl => exact rel_agree_refl _
  | number h => exact .some h

theorem Agree.isMissing_eq (h : c.Agree d) : c.isMissing = d.isMissing := by
  cases h <;> rfl

theorem agree_cellAt {row row' : Row α} (h : List.Forall₂ Agree row row') (p : Nat) :
    (cellAt row p).Agree (cellAt row' p) :=
  rel_getD h (.refl _) p

end Cell

namespace Table

variable {t u : Table α} {name : String}

theorem Agree.columnIndex?_eq (h : t.Agree u) : t.columnIndex? name = u.columnIndex? name := by
  rw [columnIndex?, columnIndex?, h.columns]

theorem Agree.rowCount_eq (h : t.Agree u) : t.rowCount = u.rowCount := h.rows.length_eq

theorem Agree.cellsAt (h : t.Agree u) (p : Nat) :
    List.Forall₂ Cell.Agree (t.cellsAt p) (u.cellsAt p) :=
  List.rel_map (fun _ _ hrow => Cell.agree_cellAt hrow p) h.rows

theorem Agree.columnValues? (h : t.Agree u) (name : String) :
    Option.Rel (List.Forall₂ Cell.Agree) (t.columnValues? name) (u.columnValues? name) := by
  unfold Table.columnValues?
  rw [h.columnIndex?_eq]
  cases u.columnIndex? name with
  | none => exact .none
  | some p => exact .some (h.cellsAt p)

theorem Agree.cells (h : t.Agree u) (name : String) :
    List.Forall₂ Cell.Agree (t.cells name) (u.cells name) := by
  have hcolumn := h.columnValues? name
  unfold Table.cells
  generalize t.columnValues? name = cells, u.columnValues? name = cells' at hcolumn
  cases hcolumn with
  | none => exact .nil
  | some hcells => exact hcells

theorem Agree.numbers (h : t.Agree u) (name : String) :
    List.Forall₂ (Option.Rel Quantity.Agree) (t.numbers name) (u.numbers name) :=
  List.rel_map (fun _ _ hcell => hcell.asNumber) (h.cells name)

/-- Rows that stand at one place in two tables and agree. -/
def Paired (t u : Table α) (row row' : Row α) : Prop :=
  (row, row') ∈ t.rows.zip u.rows ∧ List.Forall₂ Cell.Agree row row'

theorem Agree.forall₂_paired (h : t.Agree u) : List.Forall₂ (Paired t u) t.rows u.rows := by
  obtain ⟨hlength, hzip⟩ := List.forall₂_iff_zip.mp h.rows
  exact List.forall₂_iff_zip.mpr ⟨hlength, fun hrow => ⟨hrow, hzip hrow⟩⟩

/-- What is the same in both tables row by row is the same of two rows at one place. -/
theorem Paired.eq_of_map_eq {β : Type} {f : Row α → β} {row row' : Row α}
    (h : Paired t u row row') (hf : t.rows.map f = u.rows.map f) : f row = f row' := by
  exact (List.forall₂_iff_zip.mp (map_eq_map_iff_forall₂.mp hf)).2 h.1

end Table

end Cells

section Readings

variable [WireQuantity α] [SignedZeroLaws α] {c d : Cell α}

theorem Cell.Agree.key_eq (h : c.Agree d) : c.key = d.key := by
  cases h with
  | refl => rfl
  | number h => exact congrArg CellKey.number (key_eq_key_iff.mpr h)

theorem Cell.Agree.holds_eq (h : c.Agree d) (value : Json) : c.holds value = d.holds value := by
  cases h with
  | refl => rfl
  | number h =>
    cases value <;> simp only [holds, eqv_eq (.refl _) h]

theorem Cell.Agree.toJson (h : c.Agree d) : c.toJson.Agree d.toJson := by
  cases h with
  | refl => exact .refl _
  | number h => exact agree_toJson h

end Readings

end TableSteps
