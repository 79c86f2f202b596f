import Mathlib.Data.List.Perm.Basic
import TableSteps.Proofs.Binary64.Lawful
import TableSteps.Proofs.Reduction.Parts
import TableSteps.Table.Basic

/-! # What a tally means

The five fields of a tally are put together cell by cell, and each has a meaning of its own: two
counts, a sum, and the least and the greatest number. All but the sum can be put together from parts
as well, and none of them but the sum hangs on the order of the cells.

A cell may hold what is no number. It is counted like a number and added like one, but it is an
extreme only where there is nothing else. -/

namespace TableSteps

open Quantity

variable {α : Type} [Quantity α]

namespace Quantity

variable {x y : α}

/-- Equal numbers, zeros of both signs among them, or no numbers at all. -/
def Same (x y : α) : Prop := eqv x y = true ∨ isNaN x = true ∧ isNaN y = true

theorem le_of_not_lt [LawfulQuantity α] (hx : isNaN x = false) (hy : isNaN y = false)
    (h : lt y x = false) : le x y = true := by
  cases hxy : lt x y with
  | true => simp [le, hxy]
  | false => simp [le, LawfulQuantity.eqv_of_not_lt hx hy hxy h]

end Quantity

/-! ## Choosing among what may be no number -/

/-- The choice passes over what is no number as long as there is a number. -/
structure Selects (worse : α → α → Bool) (pick : α → α → α) : Prop
    extends Ranks worse pick where
  left {x y : α} : isNaN x = true → pick x y = y
  right {x y : α} : isNaN x = false → isNaN y = true → pick x y = x

theorem selects_greatest [LawfulQuantity α] : Selects (α := α) lt greatest where
  toRanks := ranks_greatest
  left hx := by simp [greatest, hx]
  right hx hy := by simp [greatest, hx, hy]

theorem selects_least [LawfulQuantity α] : Selects (α := α) (fun x y => lt y x) least where
  toRanks := ranks_least
  left hx := by simp [least, hx]
  right hx hy := by simp [least, hx, hy]

namespace Selects

variable {worse : α → α → Bool} {better : α → α → α} {x y z : α}

theorem assoc (h : Selects worse better) : better (better x y) z = better x (better y z) := by
  cases hx : isNaN x with
  | true => rw [h.left hx, h.left hx]
  | false =>
    cases hy : isNaN y with
    | true => rw [h.right hx hy, h.left hy]
    | false =>
      rw [h.better hx hy]
      cases hz : isNaN z with
      | true =>
        rw [h.right hy hz, h.better hx hy]
        split
        · exact h.right hy hz
        · exact h.right hx hz
      | false =>
        rw [h.better hy hz]
        cases hxy : worse x y <;> cases hyz : worse y z
        · -- Were `x` worse than `z`, then `y` would be above it or below the other.
          have hxz : worse x z = false := by
            rw [← Bool.not_eq_true]
            intro hxz
            rcases h.between hxz hy with h' | h' <;> simp_all
          simp [h.better hx hz, h.better hx hy, hxz, hxy]
        · simp
        · simp [h.better hy hz, h.better hx hy, hxy, hyz]
        · simp [h.better hy hz, h.better hx hz, hyz, h.trans hxy hyz]

end Selects

/-- One of the numbers, with none better; it is no number only if all are none. There is no extreme
only if there are no numbers. -/
inductive IsExtreme (worse : α → α → Bool) (numbers : List α) : Option α → Prop
  | empty : numbers = [] → IsExtreme worse numbers none
  | found {x : α} :
    x ∈ numbers → (∀ y ∈ numbers, isNaN y = false → isNaN x = false ∧ worse x y = false) →
      IsExtreme worse numbers (some x)

namespace IsExtreme

variable {worse : α → α → Bool} {better : α → α → α} {numbers others : List α}
  {best best' : Option α}

theorem spec {x : α} (h : IsExtreme worse numbers (some x)) :
    x ∈ numbers ∧ ∀ y ∈ numbers, isNaN y = false → isNaN x = false ∧ worse x y = false := by
  cases h with
  | found hx hbest => exact ⟨hx, hbest⟩

theorem of_perm (h : IsExtreme worse numbers best) (hperm : numbers.Perm others) :
    IsExtreme worse others best := by
  cases h with
  | empty hnil =>
    subst hnil
    exact .empty hperm.nil_eq.symm
  | found hx hbest => exact .found (hperm.mem_iff.mp hx) fun y hy => hbest y (hperm.mem_iff.mpr hy)

theorem singleton (h : Selects worse better) (x : α) : IsExtreme worse [x] (some x) :=
  .found List.mem_cons_self fun y hy hnumber => by
    rw [List.mem_singleton] at hy
    subst hy
    exact ⟨hnumber, h.irrefl y⟩

/-- The better of the extremes of two lists is the extreme of both together. -/
theorem append (h : Selects worse better) (hleft : IsExtreme worse numbers best)
    (hright : IsExtreme worse others best') :
    IsExtreme worse (numbers ++ others) (Option.merge better best best') := by
  cases hleft with
  | empty hnil => simpa [hnil] using hright
  | @found x hx hbest =>
    cases hright with
    | empty hnil => simpa [hnil] using IsExtreme.found hx hbest
    | @found y hy hbest' =>
      simp only [Option.merge_some_some]
      cases hxnan : isNaN x with
      | true =>
        -- There is no number on the left.
        rw [h.left hxnan]
        refine .found (List.mem_append_right _ hy) fun z hz hnumber => ?_
        rcases List.mem_append.mp hz with hz | hz
        · simpa [hxnan] using (hbest z hz hnumber).1
        · exact hbest' z hz hnumber
      | false =>
        cases hynan : isNaN y with
        | true =>
          rw [h.right hxnan hynan]
          refine .found (List.mem_append_left _ hx) fun z hz hnumber => ?_
          rcases List.mem_append.mp hz with hz | hz
          · exact hbest z hz hnumber
          · simpa [hynan] using (hbest' z hz hnumber).1
        | false =>
          rw [h.better hxnan hynan]
          cases hxy : worse x y with
          | true =>
            refine .found (List.mem_append_right _ hy) fun z hz hnumber => ⟨hynan, ?_⟩
            rcases List.mem_append.mp hz with hz | hz
            · -- Were `y` worse than `z`, so would be `x`.
              rw [← Bool.not_eq_true]
              intro hyz
              simpa [h.trans hxy hyz] using (hbest z hz hnumber).2
            · exact (hbest' z hz hnumber).2
          | false =>
            refine .found (List.mem_append_left _ hx) fun z hz hnumber => ⟨hxnan, ?_⟩
            rcases List.mem_append.mp hz with hz | hz
            · exact (hbest z hz hnumber).2
            · rw [← Bool.not_eq_true]
              intro hxz
              rcases h.between hxz hynan with hworse | hworse
              · simp [hxy] at hworse
              · simpa [hworse] using (hbest' z hz hnumber).2

/-- Two extremes of the same numbers are the same. -/
theorem rel_same (h : Selects worse better) (hbest : IsExtreme worse numbers best)
    (hbest' : IsExtreme worse numbers best') : Option.Rel Same best best' := by
  cases hbest with
  | empty hnil =>
    cases hbest' with
    | empty => exact .none
    | found hy _ => simp [hnil] at hy
  | @found x hx hbest =>
    cases hbest' with
    | empty hnil => simp [hnil] at hx
    | @found y hy hbest' =>
      refine .some ?_
      cases hxnan : isNaN x with
      | true =>
        refine .inr ⟨hxnan, ?_⟩
        rw [← Bool.not_eq_false]
        intro hynan
        simpa [hxnan] using (hbest y hy hynan).1
      | false =>
        obtain ⟨hynan, hyx⟩ := hbest' x hx hxnan
        exact .inl (h.eqv hxnan hynan (hbest y hy hynan).2 hyx)

end IsExtreme

namespace Tally

/-! ## The extremes of a tally -/

section Best

variable {worse : α → α → Bool} {better : α → α → α}

/-- The extreme that looking at one number after another finds. -/
def best (better : α → α → α) (numbers : List α) : Option α :=
  numbers.foldl (fun best x => some (improve better best x)) none

/-- What comes later is looked at on its own. -/
theorem foldl_improve (h : Selects worse better) (numbers : List α) (sofar : Option α) :
    numbers.foldl (fun best x => some (improve better best x)) sofar =
      Option.merge better sofar (best better numbers) := by
  induction numbers generalizing sofar with
  | nil => simp [best]
  | cons x rest ih =>
    rw [best, List.foldl_cons, List.foldl_cons, ih, ih (some _)]
    cases sofar with
    | none => simp [improve]
    | some y =>
      cases best better rest with
      | none => simp [improve]
      | some z => simp [improve, h.assoc]

theorem best_append (h : Selects worse better) (numbers others : List α) :
    best better (numbers ++ others) =
      Option.merge better (best better numbers) (best better others) := by
  rw [best, List.foldl_append, foldl_improve h]
  rfl

theorem isExtreme_best (h : Selects worse better) (numbers : List α) :
    IsExtreme worse numbers (best better numbers) := by
  induction numbers with
  | nil => exact .empty rfl
  | cons x rest ih =>
    rw [← List.singleton_append, best_append h]
    exact (IsExtreme.singleton h x).append h ih

end Best

variable {cells others : List (Cell α)}

theorem min_ofCells : (ofCells cells).min = best least (numbersIn cells) := by
  rw [ofCells, foldl_addCell]
  rfl

theorem max_ofCells : (ofCells cells).max = best greatest (numbersIn cells) := by
  rw [ofCells, foldl_addCell]
  rfl

variable [LawfulQuantity α]

/-- No missing cell is a number. -/
theorem numbersIn_eq_filterMap (cells : List (Cell α)) :
    numbersIn cells = cells.filterMap Cell.asNumber := by
  refine List.filterMap_congr fun c _ => ?_
  cases hmissing : c.isMissing with
  | true => simp [Cell.asNumber_of_isMissing hmissing]
  | false => simp

omit [LawfulQuantity α] in
theorem numbersIn_append (cells others : List (Cell α)) :
    numbersIn (cells ++ others) = numbersIn cells ++ numbersIn others :=
  List.filterMap_append

theorem countP_numbers_le (cells : List (Cell α)) :
    (cells.countP fun c => c.asNumber.isSome) ≤ cells.countP fun c => !c.isMissing := by
  refine List.countP_mono_left fun c _ hnumber => ?_
  cases hmissing : c.isMissing with
  | true => simp [Cell.asNumber_of_isMissing hmissing] at hnumber
  | false => rfl

/-- There are as many numbers as cells that are not missing just when every such cell is one. -/
theorem countP_eq_iff (cells : List (Cell α)) :
    (cells.countP fun c => !c.isMissing) = (cells.countP fun c => c.asNumber.isSome) ↔
      cells.all (fun c => c.isMissing || c.asNumber.isSome) = true := by
  induction cells with
  | nil => simp
  | cons c rest ih =>
    have hle := countP_numbers_le rest
    rw [List.countP_cons, List.countP_cons, List.all_cons, Bool.and_eq_true, ← ih]
    cases hmissing : c.isMissing with
    | true => simp [Cell.asNumber_of_isMissing hmissing]
    | false =>
      cases hnumber : c.asNumber with
      | some x => simp
      | none =>
        simp
        omega

/-- An extreme is one of the numbers, and no number is better. -/
theorem best_spec {worse : α → α → Bool} {better : α → α → α} (h : Selects worse better) {x : α}
    (hx : best better (numbersIn cells) = some x) :
    x ∈ cells.filterMap Cell.asNumber ∧ ∀ y ∈ cells.filterMap Cell.asNumber,
      isNaN y = false → isNaN x = false ∧ worse x y = false := by
  have hextreme := isExtreme_best h (numbersIn cells)
  rw [hx, numbersIn_eq_filterMap] at hextreme
  exact hextreme.spec

/-! ## What the fields mean -/

/-- The meaning of every field, in terms of the cells. Without numbers there are no extremes and no
mean; otherwise the extremes are two of the numbers and bound the others. -/
structure Describes (a : Tally α) (column : List (Cell α)) : Prop where
  cells : a.cells = column.countP fun c => !c.isMissing
  numbers : a.numbers = column.countP fun c => c.asNumber.isSome
  numbers_le : a.numbers ≤ a.cells
  sum : a.sum = (column.filterMap Cell.asNumber).foldl (· + ·) zero
  min_eq_none : a.min = none ↔ a.numbers = 0
  max_eq_none : a.max = none ↔ a.numbers = 0
  mean_eq_none : a.result .mean = none ↔ a.numbers = 0
  min {x : α} : a.min = some x → x ∈ column.filterMap Cell.asNumber ∧
    ∀ y ∈ column.filterMap Cell.asNumber, isNaN y = false → isNaN x = false ∧ le x y = true
  max {x : α} : a.max = some x → x ∈ column.filterMap Cell.asNumber ∧
    ∀ y ∈ column.filterMap Cell.asNumber, isNaN y = false → isNaN x = false ∧ le y x = true
  mean {x : α} : a.result .mean = some x → x = a.sum / ofNat a.numbers

/-- Two tallies that differ in nothing but the sum, and in the signs of zeros. -/
structure SameButSum (a b : Tally α) : Prop where
  cells : a.cells = b.cells
  numbers : a.numbers = b.numbers
  min : Option.Rel Same a.min b.min
  max : Option.Rel Same a.max b.max

/-- What two parts have found, the sum apart, put together from their tallies. -/
structure Joins (a left right : Tally α) : Prop where
  cells : a.cells = left.cells + right.cells
  numbers : a.numbers = left.numbers + right.numbers
  min : a.min = Option.merge least left.min right.min
  max : a.max = Option.merge greatest left.max right.max

theorem describes_ofCells (cells : List (Cell α)) : (ofCells cells).Describes cells := by
  have hnumbers : (ofCells cells).numbers = cells.countP fun c => c.asNumber.isSome := by
    rw [numbers_ofCells, numbersIn_eq_filterMap, List.length_filterMap_eq_countP]
  have hnone (reduction : Reduction) (hreduction : reduction ∈ [.mean, .max, .min]) :
      (ofCells cells).result reduction = none ↔ (ofCells cells).numbers = 0 := by
    rw [result_eq_none_iff, numbers_ofCells, List.length_eq_zero_iff]
    exact and_iff_right hreduction
  refine ⟨cells_ofCells, hnumbers, ?_, ?_, hnone .min (by decide), hnone .max (by decide),
    hnone .mean (by decide), ?_, ?_, ?_⟩
  · rw [hnumbers, cells_ofCells]
    exact countP_numbers_le cells
  · rw [sum_ofCells, numbersIn_eq_filterMap]
  · intro x hx
    rw [min_ofCells] at hx
    obtain ⟨hmem, hleast⟩ := best_spec selects_least hx
    exact ⟨hmem, fun y hy hnumber => ⟨(hleast y hy hnumber).1,
      le_of_not_lt (hleast y hy hnumber).1 hnumber (hleast y hy hnumber).2⟩⟩
  · intro x hx
    rw [max_ofCells] at hx
    obtain ⟨hmem, hgreatest⟩ := best_spec selects_greatest hx
    exact ⟨hmem, fun y hy hnumber => ⟨(hgreatest y hy hnumber).1,
      le_of_not_lt hnumber (hgreatest y hy hnumber).1 (hgreatest y hy hnumber).2⟩⟩
  · intro x hx
    simp only [result] at hx
    split at hx
    · cases hx
    · exact (Option.some.inj hx).symm

theorem sameButSum_of_perm (hperm : cells.Perm others) :
    (ofCells others).SameButSum (ofCells cells) := by
  have hnumbers : (numbersIn cells).Perm (numbersIn others) := hperm.filterMap _
  have hsame {worse : α → α → Bool} {better : α → α → α} (h : Selects worse better) :
      Option.Rel Same (best better (numbersIn others)) (best better (numbersIn cells)) :=
    (isExtreme_best h _).rel_same h ((isExtreme_best h _).of_perm hnumbers)
  refine ⟨?_, ?_, ?_, ?_⟩
  · rw [cells_ofCells, cells_ofCells, hperm.countP_eq]
  · rw [numbers_ofCells, numbers_ofCells, hnumbers.length_eq]
  · rw [min_ofCells, min_ofCells]
    exact hsame selects_least
  · rw [max_ofCells, max_ofCells]
    exact hsame selects_greatest

theorem joins_ofCells_append (cells others : List (Cell α)) :
    (ofCells (cells ++ others)).Joins (ofCells cells) (ofCells others) := by
  refine ⟨?_, ?_, ?_, ?_⟩
  · simp only [cells_ofCells, List.countP_append]
  · simp only [numbers_ofCells, numbersIn_append, List.length_append]
  · simp only [min_ofCells, numbersIn_append, best_append selects_least]
  · simp only [max_ofCells, numbersIn_append, best_append selects_greatest]

theorem isNumericColumn_iff {t : Table α} {name : String}
    (hcolumn : t.columnValues? name = some cells) :
    t.isNumericColumn name = true ↔ (ofCells cells).cells = (ofCells cells).numbers := by
  rw [cells_ofCells, (describes_ofCells cells).numbers, countP_eq_iff, Table.isNumericColumn,
    hcolumn, Option.any_some]

/-- The meaning of a tally: of each field on its own, of all but the sum in any order and over
parts, and of equal counts where the cells are a column of a table. -/
theorem ofCells_meaning (cells : List (Cell α)) :
    (ofCells cells).Describes cells ∧
      (∀ others, cells.Perm others → (ofCells others).SameButSum (ofCells cells)) ∧
      (∀ rest, (ofCells (cells ++ rest)).Joins (ofCells cells) (ofCells rest)) ∧
      ∀ (t : Table α) (name : String), t.columnValues? name = some cells →
        (t.isNumericColumn name = true ↔ (ofCells cells).cells = (ofCells cells).numbers) :=
  ⟨describes_ofCells cells, fun _ => sameButSum_of_perm, joins_ofCells_append cells,
    fun _ _ => isNumericColumn_iff⟩

/-- A column of all kinds of cells, read forwards and backwards: two zeros, what is no number, and
texts that write a number, a missing one, an infinite one and none. -/
theorem ofCells_meaning_mixed :
    let column : List (Cell Float) := [.number 0.0, .text " 4 ", .number (0 / 0), .text "NaN",
      .text "inf", .empty, .boolean true, .number (-0.0), .text "x"]
    (ofCells column).cells = 7 ∧ (ofCells column).numbers = 4 ∧
      (ofCells column.reverse).SameButSum (ofCells column) ∧
      (Table.isNumericColumn ⟨["v"], column.map fun c => [c]⟩ "v" = true ↔
        (ofCells column).cells = (ofCells column).numbers) := by
  intro column
  obtain ⟨hdescribes, hperm, -, hnumeric⟩ := ofCells_meaning column
  exact ⟨by decide +kernel, by decide +kernel, hperm _ (List.reverse_perm column).symm,
    hnumeric _ "v" rfl⟩

end Tally
end TableSteps
