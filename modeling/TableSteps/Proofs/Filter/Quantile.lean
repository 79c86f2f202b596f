import Mathlib.Data.List.Pairwise
import Mathlib.Tactic.Linarith
import TableSteps.Filter.Run
import TableSteps.Formula.RowValue
import TableSteps.Proofs.Quantity.Exact
import TableSteps.Proofs.Step.Lookup

/-! # Quantiles and the bands between them

A quantile is read off a sorted list as off a line through its values: at a whole position it is the
value there, and between two positions it goes straight from one value to the next. Without rounding
the line never falls, so a larger percentile has no smaller quantile. A band keeps the rows with a
number between two quantiles; one band inside another keeps some of the rows that the other
keeps. -/

namespace TableSteps

open Formula (cellOf)

/-! ## A line through the values of a sequence -/

/-- The height at a position of the line that goes straight from each value to the next. -/
def lineAt (value : Nat → ℚ) (position : ℚ) : ℚ :=
  value ⌊position⌋₊ + (value ⌈position⌉₊ - value ⌊position⌋₊) * (position - ⌊position⌋₊)

section Line

variable {value : Nat → ℚ} {s s' : ℚ}

theorem le_lineAt (hvalue : Monotone value) (hs : 0 ≤ s) : value ⌊s⌋₊ ≤ lineAt value s := by
  have hrise : 0 ≤ value ⌈s⌉₊ - value ⌊s⌋₊ := sub_nonneg.mpr (hvalue (Nat.floor_le_ceil s))
  have hway : 0 ≤ s - ⌊s⌋₊ := sub_nonneg.mpr (Nat.floor_le hs)
  exact le_add_of_nonneg_right (mul_nonneg hrise hway)

theorem lineAt_le (hvalue : Monotone value) (s : ℚ) : lineAt value s ≤ value ⌈s⌉₊ := by
  have hrise : 0 ≤ value ⌈s⌉₊ - value ⌊s⌋₊ := sub_nonneg.mpr (hvalue (Nat.floor_le_ceil s))
  have hway : s - ⌊s⌋₊ ≤ 1 := by linarith [Nat.lt_floor_add_one s]
  have hpart := mul_le_of_le_one_right hrise hway
  unfold lineAt
  linarith

/-- A line through values that never fall never falls. -/
theorem lineAt_mono (hvalue : Monotone value) (hs : 0 ≤ s) (h : s ≤ s') :
    lineAt value s ≤ lineAt value s' := by
  rcases (Nat.floor_mono h).lt_or_eq with hfloor | hfloor
  · -- a whole position lies between the two, and its value between theirs
    have hbetween : ⌈s⌉₊ ≤ ⌊s'⌋₊ := (Nat.ceil_le_floor_add_one s).trans hfloor
    calc lineAt value s ≤ value ⌈s⌉₊ := lineAt_le hvalue s
      _ ≤ value ⌊s'⌋₊ := hvalue hbetween
      _ ≤ lineAt value s' := le_lineAt hvalue (hs.trans h)
  · -- both lie between the same neighbours, unless the first is a whole position itself
    have hrise : value ⌈s⌉₊ - value ⌊s⌋₊ ≤ value ⌈s'⌉₊ - value ⌊s'⌋₊ := by
      rw [hfloor]
      exact sub_le_sub_right (hvalue (Nat.ceil_mono h)) _
    have hrise' : 0 ≤ value ⌈s'⌉₊ - value ⌊s'⌋₊ := sub_nonneg.mpr (hvalue (Nat.floor_le_ceil s'))
    have hway : 0 ≤ s - ⌊s⌋₊ := sub_nonneg.mpr (Nat.floor_le hs)
    have hway' : s - ⌊s⌋₊ ≤ s' - ⌊s'⌋₊ := by
      rw [hfloor]
      exact sub_le_sub_right h _
    unfold lineAt
    rw [← hfloor] at hrise hrise' hway' ⊢
    exact add_le_add_right (mul_le_mul hrise hway' hway hrise') _

end Line

/-! ## Positions -/

section Position

variable {last : Nat} {percentile percentile' : ℚ}

theorem quantilePosition_eq :
    quantilePosition last percentile = max 0 (min 1 (percentile / 100)) * last := by
  have hclamp (x : ℚ) : Quantity.clamp (0 : ℚ) 1 x = max 0 (min 1 x) := by
    simp only [Quantity.clamp, Quantity.lt, decide_eq_true_eq]
    grind
  have hhundred : (Quantity.ofNat 100 : ℚ) = 100 := rfl
  rw [← hclamp, ← hhundred]
  simp [quantilePosition, Quantity.ofNat]

theorem quantilePosition_nonneg : 0 ≤ quantilePosition last percentile := by
  rw [quantilePosition_eq]
  positivity

theorem quantilePosition_le : quantilePosition last percentile ≤ last := by
  rw [quantilePosition_eq]
  have hshare : max 0 (min 1 (percentile / 100)) ≤ 1 := max_le zero_le_one (min_le_left ..)
  exact mul_le_of_le_one_left (Nat.cast_nonneg last) hshare

theorem quantilePosition_mono (h : percentile ≤ percentile') :
    quantilePosition last percentile ≤ quantilePosition last percentile' := by
  rw [quantilePosition_eq, quantilePosition_eq]
  gcongr

end Position

/-! ## Quantiles -/

section Quantile

variable {first : ℚ} {rest sorted : List ℚ} {percentile percentile' q q' : ℚ}

/-- The values of a list, and its last value ever after. -/
def heldAt (first : ℚ) (rest : List ℚ) (i : Nat) : ℚ :=
  (first :: rest).getD (min i rest.length) first

theorem heldAt_mono (h : (first :: rest).Pairwise (· ≤ ·)) : Monotone (heldAt first rest) := by
  intro i j hij
  have hlt (k : Nat) : min k rest.length < (first :: rest).length :=
    Nat.lt_succ_of_le (min_le_right ..)
  have hget (k : Nat) : heldAt first rest k = (first :: rest).get ⟨_, hlt k⟩ := by
    rw [heldAt, List.getD, List.getElem?_eq_getElem (hlt k), Option.getD_some, List.get_eq_getElem]
  rw [hget, hget]
  exact h.rel_get_of_le (min_le_min_right _ hij)

theorem heldAt_of_le {i : Nat} (h : i ≤ rest.length) :
    (first :: rest)[i]? = some (heldAt first rest i) := by
  have hlt : i < (first :: rest).length := Nat.lt_succ_of_le h
  rw [heldAt, min_eq_left h, List.getD, List.getElem?_eq_getElem hlt, Option.getD_some]

theorem quantile?_cons :
    quantile? (first :: rest) percentile =
      some (lineAt (heldAt first rest) (quantilePosition rest.length percentile)) := by
  have hle : quantilePosition rest.length percentile ≤ rest.length := quantilePosition_le
  have hheld {i : Nat} (hi : i ≤ rest.length) :
      (first :: rest)[i]? = some (heldAt first rest i) := heldAt_of_le hi
  have hlower := hheld (Nat.floor_le_of_le hle)
  have hupper := hheld (Nat.ceil_le.mpr hle)
  unfold quantile?
  simp only [Quantity.floorNat, Quantity.ceilNat, List.getD, hlower, hupper, Option.getD_some]
  rfl

/-- A quantile taken at a position: between two neighbours of the list, which are one where the
position is whole. -/
structure Interpolates (sorted : List ℚ) (position q : ℚ) (lower upper : Nat) (low high : ℚ) :
    Prop where
  lower_eq : lower = Quantity.floorNat position
  upper_eq : upper = Quantity.ceilNat position
  ordered : lower ≤ upper
  inside : upper < sorted.length
  adjacent : upper - lower ≤ 1
  low_eq : sorted[lower]? = some low
  high_eq : sorted[upper]? = some high
  value_eq : q = low + (high - low) * (position - lower)
  above : low ≤ q
  below : q ≤ high

theorem interpolates_lineAt (h : (first :: rest).Pairwise (· ≤ ·)) {position : ℚ}
    (hnonneg : 0 ≤ position) (hle : position ≤ rest.length) :
    Interpolates (first :: rest) position (lineAt (heldAt first rest) position)
      ⌊position⌋₊ ⌈position⌉₊ (heldAt first rest ⌊position⌋₊)
      (heldAt first rest ⌈position⌉₊) where
  lower_eq := rfl
  upper_eq := rfl
  ordered := Nat.floor_le_ceil position
  inside := Nat.lt_succ_of_le (Nat.ceil_le.mpr hle)
  adjacent := Nat.sub_le_of_le_add (Nat.add_comm _ 1 ▸ Nat.ceil_le_floor_add_one position)
  low_eq := heldAt_of_le (Nat.floor_le_of_le hle)
  high_eq := heldAt_of_le (Nat.ceil_le.mpr hle)
  value_eq := rfl
  above := le_lineAt (heldAt_mono h) hnonneg
  below := lineAt_le (heldAt_mono h) position

/-- No quantile is below the first value or above the last one. -/
theorem Interpolates.mem_range {position low high : ℚ} {lower upper : Nat}
    (h : Interpolates sorted position q lower upper low high)
    (hsorted : sorted.Pairwise (· ≤ ·)) {least greatest : ℚ} (hleast : sorted.head? = some least)
    (hgreatest : sorted.getLast? = some greatest) : least ≤ q ∧ q ≤ greatest := by
  have hlow : low ∈ sorted := List.mem_of_getElem? h.low_eq
  have hhigh : high ∈ sorted := List.mem_of_getElem? h.high_eq
  have hfirst : least ≤ low := by
    rw [← (List.head_eq_iff_head?_eq_some _).mpr hleast]
    exact hsorted.rel_head hlow
  have hlast : high ≤ greatest := by
    rw [← (List.getLast_eq_iff_getLast?_eq_some _).mpr hgreatest]
    exact hsorted.rel_getLast hhigh
  exact ⟨hfirst.trans h.above, h.below.trans hlast⟩

theorem quantile?_mono (hsorted : sorted.Pairwise (· ≤ ·)) (h : percentile ≤ percentile')
    (hq : quantile? sorted percentile = some q) (hq' : quantile? sorted percentile' = some q') :
    q ≤ q' := by
  cases sorted with
  | nil => cases hq
  | cons first rest =>
    obtain rfl := Option.some.inj (quantile?_cons.symm.trans hq)
    obtain rfl := Option.some.inj (quantile?_cons.symm.trans hq')
    exact lineAt_mono (heldAt_mono hsorted) quantilePosition_nonneg (quantilePosition_mono h)

end Quantile

/-! ## Bands -/

namespace Filter

section Band

variable {α : Type} [Quantity α] {t : Table α} {column : String} {low high : α}
  {rows : List (Row α)}

/-- The numbers of some rows in one column, in their total order. -/
def sortedNumbers (t : Table α) (column : String) (rows : List (Row α)) : List α :=
  (rows.filterMap fun row => (cellOf t.columns row column).asNumber).mergeSort Quantity.totalLe

/-- The row has a number from one number to another. -/
def liesBetween (t : Table α) (column : String) (low high : α) (row : Row α) : Bool :=
  (cellOf t.columns row column).asNumber.any fun x => Quantity.le low x && Quantity.le x high

theorem sortedNumbers_eq :
    (rows.filterMap (numberAt (t.columns.idxOf column))).mergeSort Quantity.totalLe =
      sortedNumbers t column rows := rfl

/-- A band keeps the rows between its two quantiles. -/
theorem byNumber_band_eq {q q' : α} (hcolumn : column ∈ t.columns)
    (hlow : quantile? (sortedNumbers t column rows) low = some q)
    (hhigh : quantile? (sortedNumbers t column rows) high = some q') :
    byNumber t (.band column low high) rows = .ok (rows.filter (liesBetween t column q q')) := by
  simp only [byNumber, NumberFilter.column, Table.columnIndex?_of_mem hcolumn, byBand,
    sortedNumbers_eq, hlow, hhigh]
  rfl

theorem sortedNumbers_eq_nil_iff :
    sortedNumbers t column rows = [] ↔
      ∀ row ∈ rows, (cellOf t.columns row column).asNumber = none := by
  rw [sortedNumbers, ← List.length_eq_zero_iff, List.length_mergeSort, List.length_eq_zero_iff,
    List.filterMap_eq_nil_iff]

/-- Where no row has a number, a band keeps none. -/
theorem byNumber_band_of_none (hcolumn : column ∈ t.columns)
    (h : sortedNumbers t column rows = []) :
    byNumber t (.band column low high) rows = .ok [] := by
  simp only [byNumber, NumberFilter.column, Table.columnIndex?_of_mem hcolumn, byBand,
    sortedNumbers_eq, h, quantile?]

theorem mem_sortedNumbers_iff {x : α} :
    x ∈ sortedNumbers t column rows ↔
      ∃ row ∈ rows, (cellOf t.columns row column).asNumber = some x := by
  rw [sortedNumbers, List.mem_mergeSort, List.mem_filterMap]

theorem length_sortedNumbers_le : (sortedNumbers t column rows).length ≤ rows.length := by
  rw [sortedNumbers, List.length_mergeSort]
  exact List.length_filterMap_le _ _

end Band

theorem pairwise_sortedNumbers {α : Type} [WireQuantity α] [TotalOrderLaws α] {t : Table α}
    {column : String} {rows : List (Row α)} :
    (sortedNumbers t column rows).Pairwise fun x y => Quantity.totalLe x y = true := by
  have htrans (x y z : α) (hxy : Quantity.totalLe x y = true) (hyz : Quantity.totalLe y z = true) :
      Quantity.totalLe x z = true := TotalOrderLaws.totalLe_trans hxy hyz
  exact List.pairwise_mergeSort htrans TotalOrderLaws.totalLe_total _

section Exact

variable {t : Table ℚ} {column : String} {rows : List (Row ℚ)}

/-- All bands over some rows are cut by one function of the percentile, and it never falls. -/
theorem exists_monotone_quantile (hcolumn : column ∈ t.columns) (rows : List (Row ℚ)) :
    ∃ quantile : ℚ → ℚ, Monotone quantile ∧ ∀ low high,
      byNumber t (.band column low high) rows =
        .ok (rows.filter (liesBetween t column (quantile low) (quantile high))) := by
  cases hsorted : sortedNumbers t column rows with
  | nil =>
    refine ⟨fun _ => 0, monotone_const, fun low high => ?_⟩
    have hnone := sortedNumbers_eq_nil_iff.mp hsorted
    rw [byNumber_band_of_none hcolumn hsorted, Except.ok.injEq, eq_comm, List.filter_eq_nil_iff]
    exact fun row hrow => by simp [liesBetween, hnone row hrow]
  | cons first rest =>
    have hpairs : (first :: rest).Pairwise (· ≤ ·) := by
      rw [← hsorted]
      exact pairwise_sortedNumbers.imp of_decide_eq_true
    refine ⟨fun p => lineAt (heldAt first rest) (quantilePosition rest.length p), fun p p' hp => ?_,
      fun low high => byNumber_band_eq hcolumn (hsorted ▸ quantile?_cons)
        (hsorted ▸ quantile?_cons)⟩
    exact lineAt_mono (heldAt_mono hpairs) quantilePosition_nonneg (quantilePosition_mono hp)

theorem liesBetween_iff {low high : ℚ} {row : Row ℚ} :
    liesBetween t column low high row = true ↔
      ∃ x, (cellOf t.columns row column).asNumber = some x ∧ low ≤ x ∧ x ≤ high := by
  have hle (x y : ℚ) : Quantity.le x y = true ↔ x ≤ y := by
    simp [Quantity.le, Quantity.lt, Quantity.eqv, le_iff_lt_or_eq]
  simp [liesBetween, Option.any_eq_true, hle]

/-- Without rounding, a quantile lies between two neighbours of the sorted values, no percentile has
a smaller quantile than a smaller one, and so bands nest: a band keeps, in their order, some of the
rows that a wider band keeps, and with two rows all rows whose numbers lie between theirs. -/
theorem nested_bands :
    (∀ sorted : List ℚ, sorted ≠ [] → sorted.Pairwise (· ≤ ·) →
      (∀ percentile, ∃ q lower upper low high, quantile? sorted percentile = some q ∧
        Interpolates sorted (quantilePosition (sorted.length - 1) percentile) q lower upper
          low high ∧
        ∀ least greatest, sorted.head? = some least → sorted.getLast? = some greatest →
          least ≤ q ∧ q ≤ greatest) ∧
      ∀ percentile percentile' q q', percentile ≤ percentile' →
        quantile? sorted percentile = some q → quantile? sorted percentile' = some q' → q ≤ q') ∧
    ∀ (t : Table ℚ) (column : String), column ∈ t.columns →
      ∀ (rows : List (Row ℚ)) (low high low' high' : ℚ), low' ≤ low → high ≤ high' →
        ∃ kept kept', byNumber t (.band column low high) rows = .ok kept ∧
          byNumber t (.band column low' high') rows = .ok kept' ∧
          kept.Sublist kept' ∧ kept'.Sublist rows ∧
          ∀ row₁ ∈ kept, ∀ row₂ ∈ kept, ∀ row ∈ rows, ∀ x₁ x x₂,
            (cellOf t.columns row₁ column).asNumber = some x₁ →
            (cellOf t.columns row column).asNumber = some x →
            (cellOf t.columns row₂ column).asNumber = some x₂ →
            x₁ ≤ x → x ≤ x₂ → row ∈ kept := by
  refine ⟨fun sorted hne hsorted => ⟨fun percentile => ?_, ?_⟩, ?_⟩
  · obtain ⟨first, rest, rfl⟩ := List.exists_cons_of_ne_nil hne
    have hnonneg : 0 ≤ quantilePosition rest.length percentile := quantilePosition_nonneg
    have hinterpolates := interpolates_lineAt hsorted hnonneg quantilePosition_le
    exact ⟨_, _, _, _, _, quantile?_cons, hinterpolates,
      fun _ _ => hinterpolates.mem_range hsorted⟩
  · exact fun _ _ _ _ => quantile?_mono hsorted
  · intro t column hcolumn rows low high low' high' hlow hhigh
    obtain ⟨quantile, hmono, hband⟩ := exists_monotone_quantile hcolumn rows
    refine ⟨_, _, hband low high, hband low' high', ?_, List.filter_sublist, ?_⟩
    · refine List.monotone_filter_right rows fun row hrow => ?_
      obtain ⟨x, hx, habove, hbelow⟩ := liesBetween_iff.mp hrow
      exact liesBetween_iff.mpr ⟨x, hx, (hmono hlow).trans habove, hbelow.trans (hmono hhigh)⟩
    · intro row₁ hrow₁ row₂ hrow₂ row hrow x₁ x x₂ hx₁ hx hx₂ hle hle'
      obtain ⟨y₁, hy₁, habove, -⟩ := liesBetween_iff.mp (List.mem_filter.mp hrow₁).2
      obtain ⟨y₂, hy₂, -, hbelow⟩ := liesBetween_iff.mp (List.mem_filter.mp hrow₂).2
      obtain rfl : y₁ = x₁ := Option.some.inj (hy₁.symm.trans hx₁)
      obtain rfl : y₂ = x₂ := Option.some.inj (hy₂.symm.trans hx₂)
      exact List.mem_filter.mpr
        ⟨hrow, liesBetween_iff.mpr ⟨x, hx, habove.trans hle, hle'.trans hbelow⟩⟩

/-- The quartiles of one to four cut the table to two rows, in the order in which they stand. -/
theorem nested_bands_of_quartiles :
    let t : Table ℚ :=
      ⟨["v"], [[.number 3], [.number 1], [.number 4], [.empty], [.number 2]]⟩
    let rows : List (Row ℚ) := [[.number 3], [.number 2]]
    (∃ lower upper low high, quantile? [(1 : ℚ), 2, 3, 4] 25 = some (7 / 4) ∧
        Interpolates [1, 2, 3, 4] (quantilePosition 3 25) (7 / 4) lower upper low high) ∧
      byNumber t (.band "v" 25 75) t.rows = .ok rows ∧
      (∃ kept', byNumber t (.band "v" 0 100) t.rows = .ok kept' ∧ rows.Sublist kept') := by
  intro t rows
  have hquartile : quantile? [(1 : ℚ), 2, 3, 4] 25 = some (7 / 4) := by decide +kernel
  have hquartile' : quantile? [(1 : ℚ), 2, 3, 4] 75 = some (13 / 4) := by decide +kernel
  have hsorted : sortedNumbers t "v" t.rows = [1, 2, 3, 4] := by
    change [(3 : ℚ), 1, 4, 2].mergeSort Quantity.totalLe = _
    norm_num [List.mergeSort, List.MergeSort.Internal.splitInTwo, Quantity.totalLe]
  have hcolumn : "v" ∈ t.columns := List.mem_singleton_self _
  have hband : byNumber t (.band "v" 25 75) t.rows = .ok rows := by
    rw [byNumber_band_eq hcolumn (hsorted ▸ hquartile) (hsorted ▸ hquartile')]
    refine congrArg Except.ok ?_
    decide +kernel
  obtain ⟨hlists, hbands⟩ := nested_bands
  obtain ⟨hquantiles, -⟩ := hlists [1, 2, 3, 4] (by simp) (by decide)
  obtain ⟨q, lower, upper, low, high, hq, hinterpolates, -⟩ := hquantiles 25
  obtain rfl := Option.some.inj (hquartile.symm.trans hq)
  obtain ⟨kept, kept', hkept, hkept', hsublist, -⟩ :=
    hbands t "v" hcolumn t.rows 25 75 0 100 (by norm_num) (by norm_num)
  obtain rfl := Except.ok.inj (hband.symm.trans hkept)
  exact ⟨⟨lower, upper, low, high, hq, hinterpolates⟩, hband, kept', hkept', hsublist⟩

end Exact

end Filter
end TableSteps
