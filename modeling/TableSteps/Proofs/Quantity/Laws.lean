import TableSteps.Key

/-! # Laws of quantities

What grouping and ordering need of numbers, and no more: keys that are read back as keys, and an
order under which numbers that are neither below nor above one another are one number. The total
order that rows are ranked in has laws of its own, which ask nothing of keys. Arithmetic has no laws
here, since sums of doubles are rounded; where exact sums of whole numbers are needed,
`ExactUpTo` asks for them as far as they are needed. -/

namespace TableSteps

open Keyed Quantity

/-- A number read back from a key has that key. -/
class LawfulKeyed (α : Type) [Keyed α] : Prop where
  key_ofKey_key (x : α) : key (ofKey (key x)) = key x

theorem Cell.key_cell_key {α : Type} [Keyed α] [LawfulKeyed α] (c : Cell α) :
    c.key.cell.key = c.key := by
  cases c with
  | empty | boolean | text => rfl
  | number x => exact congrArg CellKey.number (LawfulKeyed.key_ofKey_key x)

/-- The numerical order, and what is equal under it. -/
class LawfulQuantity (α : Type) [Quantity α] : Prop extends LawfulKeyed α where
  isNaN_of_isFinite {x : α} : isFinite x = true → isNaN x = false
  lt_irrefl (x : α) : lt x x = false
  lt_trans {x y z : α} : lt x y = true → lt y z = true → lt x z = true
  /-- A number between two others is above the lower or below the higher one. -/
  lt_or_lt {x y z : α} : lt x z = true → isNaN y = false → lt x y = true ∨ lt y z = true
  eqv_of_not_lt {x y : α} : isNaN x = false → isNaN y = false → lt x y = false → lt y x = false →
    eqv x y = true

/-- The order that numbers are ranked and sorted in. -/
class TotalOrderLaws (α : Type) [Quantity α] : Prop where
  totalLe_total (x y : α) : (totalLe x y || totalLe y x) = true
  totalLe_trans {x y z : α} : totalLe x y = true → totalLe y z = true → totalLe x z = true

/-- Whole numbers are added without rounding as long as the sum is not above a bound. -/
def Quantity.ExactUpTo (α : Type) [Quantity α] (bound : Nat) : Prop :=
  ∀ m n, m + n ≤ bound → (ofNat m + ofNat n : α) = ofNat (m + n)

theorem Quantity.ExactUpTo.mono {α : Type} [Quantity α] {low high : Nat} (h : ExactUpTo α high)
    (hle : low ≤ high) : ExactUpTo α low :=
  fun m n hsum => h m n (Nat.le_trans hsum hle)

theorem Quantity.ExactUpTo.foldl_add {α : Type} [Quantity α] {bound : Nat}
    (h : ExactUpTo α bound) {counts : List Nat} :
    ∀ {start : Nat}, start + counts.foldr (· + ·) 0 ≤ bound →
      (counts.map ofNat).foldl (· + ·) (ofNat start : α) =
        ofNat (start + counts.foldr (· + ·) 0) := by
  induction counts with
  | nil => exact fun _ => rfl
  | cons n rest ih =>
    intro start hbound
    rw [List.foldr_cons] at hbound ⊢
    rw [List.map_cons, List.foldl_cons, h start n (by omega), ih (by omega), Nat.add_assoc]

/-- Sums do not hang on the order of their terms, as they do where sums are rounded. -/
structure Quantity.ExactAddition (α : Type) [Quantity α] : Prop where
  add_comm (x y : α) : x + y = y + x
  add_assoc (x y z : α) : x + y + z = x + (y + z)

theorem Quantity.ExactAddition.foldl_eq_of_perm {α : Type} [Quantity α] (h : ExactAddition α)
    {xs ys : List α} (hperm : xs.Perm ys) (start : α) :
    xs.foldl (· + ·) start = ys.foldl (· + ·) start := by
  refine hperm.foldl_eq' (fun x _ y _ sum => ?_) start
  rw [h.add_assoc, h.add_comm x y, ← h.add_assoc]

/-! ## Totals -/

namespace Quantity

variable {α β : Type} [Quantity α] {xs ys : List α}

/-- All numbers of a list added up from the left, beginning with the first. -/
def total : List α → α
  | [] => zero
  | x :: rest => rest.foldl (· + ·) x

namespace ExactAddition

variable (h : ExactAddition α)

include h

theorem total_eq_of_perm (hperm : xs.Perm ys) : total xs = total ys := by
  induction hperm with
  | nil => rfl
  | cons x hrest _ => exact h.foldl_eq_of_perm hrest x
  | swap x y rest =>
    change rest.foldl (· + ·) (y + x) = rest.foldl (· + ·) (x + y)
    rw [h.add_comm]
  | trans _ _ ih ih' => exact ih.trans ih'

theorem foldl_add (x start : α) : xs.foldl (· + ·) (x + start) = x + xs.foldl (· + ·) start := by
  induction xs generalizing start with
  | nil => rfl
  | cons y rest ih => rw [List.foldl_cons, List.foldl_cons, h.add_assoc, ih]

theorem total_append (hxs : xs ≠ []) (hys : ys ≠ []) : total (xs ++ ys) = total xs + total ys := by
  obtain ⟨x, xs, rfl⟩ := List.exists_cons_of_ne_nil hxs
  obtain ⟨y, ys, rfl⟩ := List.exists_cons_of_ne_nil hys
  rw [List.cons_append, total, List.foldl_append, List.foldl_cons, h.foldl_add]
  rfl

/-- The total of the totals of some parts, none of them empty, is the total of all. -/
theorem total_flatMap {f : β → List α} {parts : List β} (hparts : ∀ part ∈ parts, f part ≠ []) :
    total (parts.flatMap f) = total (parts.map fun part => total (f part)) := by
  induction parts with
  | nil => rfl
  | cons part rest ih =>
    obtain ⟨hpart, hrest⟩ := List.forall_mem_cons.mp hparts
    rw [List.flatMap_cons, List.map_cons]
    cases rest with
    | nil => simp [total]
    | cons next others =>
      have hothers : (next :: others).flatMap f ≠ [] := by
        simp [hrest next List.mem_cons_self]
      rw [h.total_append hpart hothers, ih hrest]
      exact (h.total_append (List.cons_ne_nil _ []) (List.cons_ne_nil _ _)).symm

end ExactAddition

/-- Sums are exact, and zero adds nothing. -/
structure ExactSums (α : Type) [Quantity α] : Prop extends ExactAddition α where
  zero_add (x : α) : zero + x = x

theorem ExactSums.foldl_eq_add (h : ExactSums α) (xs : List α) (start : α) :
    xs.foldl (· + ·) start = start + xs.foldl (· + ·) zero := by
  rw [← h.foldl_add, h.add_comm start, h.zero_add]

end Quantity

end TableSteps
