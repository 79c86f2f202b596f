import TableSteps.Proofs.Quantity.Laws
import TableSteps.Reduction

/-! # Reductions over parts

Cells that are split into parts are counted by adding the counts of the parts, and their largest
number is the largest of the largest numbers of the parts; likewise the smallest. A part without a
number has no largest one. Its result is a missing cell, which the reduction of the results passes
over.

Which of several largest numbers comes out hangs on the order, so the two ways agree up to numerical
equality: both may come out as zero, one of them negative. -/

namespace TableSteps

open Quantity

variable {α : Type} [Quantity α]

/-- The same cell, or equal numbers; only zeros of either sign are equal but not the same. -/
def Cell.Agrees : Cell α → Cell α → Prop
  | .number x, .number y => x = y ∨ eqv x y = true
  | c, d => c = d

theorem Cell.Agrees.refl (c : Cell α) : c.Agrees c := by
  cases c <;> simp [Agrees]

/-- A text that writes a missing number writes no finite one. -/
theorem Cell.asNumber_of_isMissing [LawfulQuantity α] {c : Cell α} (h : c.isMissing = true) :
    c.asNumber = none := by
  cases c with
  | empty => rfl
  | boolean b => rfl
  | number x => cases h
  | text s =>
    cases hx : (Cell.numberInText? s : Option α) with
    | none => simp [Cell.asNumber, hx]
    | some x =>
      have hnan : isNaN x = true := by simpa [Cell.isMissing, hx] using h
      have hinfinite : isFinite x = false := by
        rw [← Bool.not_eq_true]
        intro hfinite
        cases hnan.symm.trans (LawfulQuantity.isNaN_of_isFinite hfinite)
      simp [Cell.asNumber, hx, Option.filter, hinfinite]

/-! ## The best of some numbers -/

/-- A strict order in which numbers are equal unless one is worse, and the choice of the better of
two numbers by it. -/
structure Ranks (worse : α → α → Bool) (better : α → α → α) : Prop where
  irrefl (x : α) : worse x x = false
  trans {x y z : α} : worse x y = true → worse y z = true → worse x z = true
  between {x y z : α} : worse x z = true → isNaN y = false → worse x y = true ∨ worse y z = true
  eqv {x y : α} : isNaN x = false → isNaN y = false → worse x y = false → worse y x = false →
    eqv x y = true
  better {x y : α} : isNaN x = false → isNaN y = false → better x y = if worse x y then y else x

theorem ranks_greatest [LawfulQuantity α] : Ranks (α := α) lt greatest where
  irrefl := LawfulQuantity.lt_irrefl
  trans := LawfulQuantity.lt_trans
  between := LawfulQuantity.lt_or_lt
  eqv := LawfulQuantity.eqv_of_not_lt
  better hx hy := by simp [greatest, hx, hy]

theorem ranks_least [LawfulQuantity α] : Ranks (α := α) (fun x y => lt y x) least where
  irrefl := LawfulQuantity.lt_irrefl
  trans h h' := LawfulQuantity.lt_trans h' h
  between h hy := (LawfulQuantity.lt_or_lt h hy).symm
  eqv hx hy h h' := LawfulQuantity.eqv_of_not_lt hx hy h' h
  better hx hy := by simp [least, hx, hy]

/-- No number is better than the best one; there is none only if there are no numbers. -/
inductive IsBest (worse : α → α → Bool) (numbers : List α) : Option α → Prop
  | empty : numbers = [] → IsBest worse numbers none
  | found {x : α} :
    x ∈ numbers → (∀ y ∈ numbers, worse x y = false) → IsBest worse numbers (some x)

namespace IsBest

variable {worse : α → α → Bool} {better : α → α → α} {numbers : List α}

omit [Quantity α] in
theorem of_perm {others : List α} {best : Option α} (h : IsBest worse numbers best)
    (hperm : numbers.Perm others) : IsBest worse others best := by
  cases h with
  | empty hnil =>
    subst hnil
    exact .empty hperm.nil_eq.symm
  | found hx hbest => exact .found (hperm.mem_iff.mp hx) fun y hy => hbest y (hperm.mem_iff.mpr hy)

omit [Quantity α] in
theorem mem {x : α} (h : IsBest worse numbers (some x)) : x ∈ numbers := by
  cases h with
  | found hx _ => exact hx

omit [Quantity α] in
theorem not_worse {x y : α} (h : IsBest worse numbers (some x)) (hy : y ∈ numbers) :
    worse x y = false := by
  cases h with
  | found _ hbest => exact hbest y hy

omit [Quantity α] in
theorem eq_nil (h : IsBest worse numbers none) : numbers = [] := by
  cases h with
  | empty hnil => exact hnil

/-- The best number, once another has been looked at. -/
theorem concat (hranks : Ranks worse better) (hnan : ∀ x ∈ numbers, isNaN x = false)
    {best : Option α} (h : IsBest worse numbers best) {y : α} (hy : isNaN y = false) :
    IsBest worse (numbers ++ [y]) (some (Tally.improve better best y)) := by
  cases h with
  | empty hnil =>
    subst hnil
    exact .found (by simp [Tally.improve]) (by simp [Tally.improve, hranks.irrefl])
  | @found x hx hbest =>
    simp only [Tally.improve]
    rw [hranks.better (hnan x hx) hy]
    by_cases hxy : worse x y = true
    · rw [if_pos hxy]
      refine .found (by simp) fun z hz => ?_
      rcases List.mem_append.mp hz with hz | hz
      · -- Were `y` worse than `z`, so would be `x`.
        rw [← Bool.not_eq_true]
        intro hyz
        have hxz := hbest z hz
        rw [hranks.trans hxy hyz] at hxz
        cases hxz
      · rw [List.mem_singleton.mp hz, hranks.irrefl]
    · rw [if_neg hxy]
      refine .found (List.mem_append_left _ hx) fun z hz => ?_
      rcases List.mem_append.mp hz with hz | hz
      · exact hbest z hz
      · rw [List.mem_singleton.mp hz]
        simpa using hxy

/-- Looking at all numbers in order finds the best one. -/
theorem foldl (hranks : Ranks worse better) {rest : List α} :
    ∀ {numbers : List α} {best : Option α}, (∀ x ∈ numbers ++ rest, isNaN x = false) →
      IsBest worse numbers best →
      IsBest worse (numbers ++ rest)
        (rest.foldl (fun best y => some (Tally.improve better best y)) best) := by
  induction rest with
  | nil => exact fun _ h => by simpa using h
  | cons y rest ih =>
    intro numbers best hnan h
    have hconcat := h.concat hranks (fun x hx => hnan x (List.mem_append_left _ hx))
      (hnan y (by simp))
    simpa using ih (by simpa using hnan) hconcat

/-- The best of the best numbers of the parts is the best of all numbers. -/
theorem flatMap {π : Type} (hranks : Ranks worse better) {parts : List π}
    {numbersOf : π → List α} {bestOf : π → Option α}
    (hnan : ∀ part ∈ parts, ∀ x ∈ numbersOf part, isNaN x = false)
    (hparts : ∀ part ∈ parts, IsBest worse (numbersOf part) (bestOf part)) {best : Option α}
    (h : IsBest worse (parts.filterMap bestOf) best) :
    IsBest worse (parts.flatMap numbersOf) best := by
  cases h with
  | empty hnil =>
    refine .empty (List.flatMap_eq_nil_iff.mpr fun part hpart => ?_)
    have hbest := hparts part hpart
    rw [List.filterMap_eq_nil_iff.mp hnil part hpart] at hbest
    exact hbest.eq_nil
  | @found x hx hbest =>
    obtain ⟨part, hpart, hx⟩ := List.mem_filterMap.mp hx
    have hmem : x ∈ numbersOf part := (hx ▸ hparts part hpart).mem
    refine .found (List.mem_flatMap.mpr ⟨part, hpart, hmem⟩) fun y hy => ?_
    obtain ⟨other, hother, hy⟩ := List.mem_flatMap.mp hy
    -- `y` is no better than the best number of its own part, nor is that better than `x`.
    have hotherBest := hparts other hother
    cases hz : bestOf other with
    | none =>
      rw [hz] at hotherBest
      rw [hotherBest.eq_nil] at hy
      cases hy
    | some z =>
      rw [hz] at hotherBest
      have hxz := hbest z (List.mem_filterMap.mpr ⟨other, hother, hz⟩)
      have hzy := hotherBest.not_worse hy
      rw [← Bool.not_eq_true]
      intro hxy
      rcases hranks.between hxy (hnan other hother z hotherBest.mem) with h | h
      · rw [h] at hxz
        cases hxz
      · rw [h] at hzy
        cases hzy

/-- Two best numbers are equal. -/
theorem agrees (hranks : Ranks worse better) (hnan : ∀ x ∈ numbers, isNaN x = false)
    {best best' : Option α} (h : IsBest worse numbers best) (h' : IsBest worse numbers best') :
    (Cell.ofOption best).Agrees (.ofOption best') := by
  cases best with
  | none =>
    cases best' with
    | none => exact .refl _
    | some y =>
      have hy := h'.mem
      rw [h.eq_nil] at hy
      cases hy
  | some x =>
    cases best' with
    | none =>
      have hx := h.mem
      rw [h'.eq_nil] at hx
      cases hx
    | some y =>
      exact .inr (hranks.eqv (hnan x h.mem) (hnan y h'.mem) (h.not_worse h'.mem)
        (h'.not_worse h.mem))

end IsBest

namespace Tally

/-! ## What a tally gathers -/

/-- The numbers that reductions see. -/
def numbersIn (cells : List (Cell α)) : List α :=
  cells.filterMap fun c => if c.isMissing then none else c.asNumber

theorem foldl_addCell (cells : List (Cell α)) :
    ∀ a : Tally α, cells.foldl addCell a =
      { sum := (numbersIn cells).foldl (· + ·) a.sum
        cells := a.cells + cells.countP fun c => !c.isMissing
        numbers := a.numbers + (numbersIn cells).length
        min := (numbersIn cells).foldl (fun m x => some (improve least m x)) a.min
        max := (numbersIn cells).foldl (fun m x => some (improve greatest m x)) a.max } := by
  induction cells with
  | nil => exact fun _ => rfl
  | cons c rest ih =>
    intro a
    rw [List.foldl_cons, ih]
    by_cases hmissing : c.isMissing = true
    · simp [addCell, hmissing, numbersIn]
    · rw [Bool.not_eq_true] at hmissing
      cases hnumber : c.asNumber <;>
        simp [addCell, hmissing, hnumber, addNumber, addOther, numbersIn] <;> omega

variable {cells : List (Cell α)}

theorem sum_ofCells : (ofCells cells).sum = (numbersIn cells).foldl (· + ·) zero := by
  rw [ofCells, foldl_addCell]
  rfl

theorem cells_ofCells : (ofCells cells).cells = cells.countP fun c => !c.isMissing := by
  rw [ofCells, foldl_addCell]
  exact Nat.zero_add _

theorem numbers_ofCells : (ofCells cells).numbers = (numbersIn cells).length := by
  rw [ofCells, foldl_addCell]
  exact Nat.zero_add _

omit [Quantity α] in
theorem foldl_improve_eq_none_iff {better : α → α → α} {numbers : List α} {best : Option α} :
    numbers.foldl (fun best x => some (improve better best x)) best = none ↔
      numbers = [] ∧ best = none := by
  induction numbers generalizing best with
  | nil => simp
  | cons x rest ih => simp [ih]

/-- The mean and the extremes have no value where there are no numbers; the sum and the count always
have one. -/
theorem result_eq_none_iff {reduction : Reduction} :
    (ofCells cells).result reduction = none ↔
      reduction ∈ [.mean, .max, .min] ∧ numbersIn cells = [] := by
  cases reduction with
  | sum => simp [result]
  | count => simp [result]
  | mean => simp [result, numbers_ofCells]
  | max => simp [result, ofCells, foldl_addCell, foldl_improve_eq_none_iff, empty]
  | min => simp [result, ofCells, foldl_addCell, foldl_improve_eq_none_iff, empty]

section Extremes

variable [LawfulQuantity α]

theorem numbersIn_eq_nil_iff : numbersIn cells = [] ↔ ∀ c ∈ cells, c.asNumber = none := by
  rw [numbersIn, List.filterMap_eq_nil_iff]
  refine forall_congr' fun c => imp_congr_right fun _ => ?_
  split
  · rename_i hmissing
    simp [Cell.asNumber_of_isMissing hmissing]
  · rfl

/-- The numbers of cells are numbers when the cells are. -/
theorem isNaN_of_mem_numbersIn (hnan : ∀ x, Cell.number x ∈ cells → isNaN x = false) {x : α}
    (hx : x ∈ numbersIn cells) : isNaN x = false := by
  obtain ⟨c, hc, hx⟩ := List.mem_filterMap.mp hx
  split at hx
  · cases hx
  · cases c with
    | number y =>
      cases hx
      exact hnan x hc
    | text s => exact LawfulQuantity.isNaN_of_isFinite (Option.mem_filter_iff.mp hx).2
    | empty => cases hx
    | boolean b => cases hx

theorem isBest_max (hnan : ∀ x ∈ numbersIn cells, isNaN x = false) :
    IsBest lt (numbersIn cells) (ofCells cells).max := by
  rw [ofCells, foldl_addCell]
  exact IsBest.foldl ranks_greatest hnan (.empty rfl : IsBest _ [] none)

theorem isBest_min (hnan : ∀ x ∈ numbersIn cells, isNaN x = false) :
    IsBest (fun x y => lt y x) (numbersIn cells) (ofCells cells).min := by
  rw [ofCells, foldl_addCell]
  exact IsBest.foldl ranks_least hnan (.empty rfl : IsBest _ [] none)

end Extremes

/-! ## Parts -/

theorem numbersIn_ofOption {π : Type} (parts : List π) (value : π → Option α) :
    numbersIn (parts.map fun part => .ofOption (value part)) = parts.filterMap value := by
  have hcell (x : Option α) : (if (Cell.ofOption x).isMissing then none
      else (Cell.ofOption x).asNumber) = x := by
    cases x <;> simp [Cell.ofOption]
  rw [numbersIn, List.filterMap_map]
  simp only [Function.comp_def, hcell]

theorem numbersIn_flatten_perm {parts : List (List (Cell α))} (h : parts.flatten.Perm cells) :
    (parts.flatMap numbersIn).Perm (numbersIn cells) := by
  have hflatten : parts.flatMap numbersIn = numbersIn parts.flatten :=
    List.filterMap_flatten.symm
  rw [hflatten]
  exact h.filterMap _

/-- The best of the results of the parts equals the best of all cells. -/
theorem agrees_result_of_parts {worse : α → α → Bool} {better : α → α → α} {reduction : Reduction}
    (hranks : Ranks worse better)
    (hbest : ∀ {cells : List (Cell α)}, (∀ x ∈ numbersIn cells, isNaN x = false) →
      IsBest worse (numbersIn cells) ((ofCells cells).result reduction))
    {parts : List (List (Cell α))} (hparts : parts.flatten.Perm cells)
    (hnan : ∀ x ∈ numbersIn cells, isNaN x = false) :
    (Cell.ofOption ((ofCells (parts.map fun part =>
      .ofOption ((ofCells part).result reduction))).result reduction)).Agrees
      (.ofOption ((ofCells cells).result reduction)) := by
  have hperm := numbersIn_flatten_perm hparts
  have hpart : ∀ part ∈ parts, ∀ x ∈ numbersIn part, isNaN x = false := fun part hpart x hx =>
    hnan x (hperm.mem_iff.mp (List.mem_flatMap.mpr ⟨part, hpart, hx⟩))
  let results : List (Cell α) := parts.map fun part => .ofOption ((ofCells part).result reduction)
  have hresults : numbersIn results = parts.filterMap fun part => (ofCells part).result reduction :=
    numbersIn_ofOption parts _
  have hbestResults : IsBest worse (numbersIn results) ((ofCells results).result reduction) := by
    refine hbest fun x hx => ?_
    obtain ⟨part, hmem, hx⟩ := List.mem_filterMap.mp (hresults ▸ hx)
    exact hpart part hmem x (hx ▸ hbest (hpart part hmem)).mem
  have hwhole : IsBest worse (parts.flatMap numbersIn) ((ofCells results).result reduction) :=
    .flatMap hranks hpart (fun part hmem => hbest (hpart part hmem)) (hresults ▸ hbestResults)
  exact (hwhole.of_perm hperm).agrees hranks hnan (hbest hnan)

/-- The counts of the parts add up to the count of all cells. -/
theorem sum_of_counts {parts : List (List (Cell α))} (hparts : parts.flatten.Perm cells)
    (hexact : ExactUpTo α cells.length) :
    (ofCells (parts.map fun part => .ofOption ((ofCells part).result .count))).result .sum =
      (ofCells cells).result .count := by
  have hcounts : (parts.map fun part => (ofCells part).cells).foldr (· + ·) 0 =
      (ofCells cells).cells := by
    simp only [cells_ofCells]
    rw [← List.sum_eq_foldr, ← List.countP_flatten, hparts.countP_eq]
  have hbound : 0 + (parts.map fun part => (ofCells part).cells).foldr (· + ·) 0 ≤
      cells.length := by
    rw [Nat.zero_add, hcounts, cells_ofCells]
    exact List.countP_le_length
  have hnumbers : numbersIn (parts.map fun part => .ofOption ((ofCells part).result .count)) =
      (parts.map fun part => (ofCells part).cells).map (ofNat : Nat → α) := by
    rw [numbersIn_ofOption, List.map_map, ← List.filterMap_eq_map]
    rfl
  have hsum := hexact.foldl_add hbound
  rw [Nat.zero_add, hcounts] at hsum
  change some _ = some _
  rw [sum_ofCells, hnumbers]
  exact congrArg some hsum

end Tally

end TableSteps
