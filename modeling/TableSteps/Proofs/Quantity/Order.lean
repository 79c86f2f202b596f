import TableSteps.Proofs.SignedZero.Basic

/-! # The numerical order

Of two numbers one is at most the other or above it. What is no number is neither, so every
comparison that holds says that both sides are numbers. Chains of comparisons close up all the same,
since numbers that are equal are above and below the same numbers. -/

namespace TableSteps

open Quantity

/-- What is no number is neither below, above nor equal to anything. -/
class UnorderedLaws (α : Type) [Quantity α] : Prop where
  isNaN_of_lt {x y : α} : lt x y = true → isNaN x = false ∧ isNaN y = false
  isNaN_of_eqv {x y : α} : eqv x y = true → isNaN x = false ∧ isNaN y = false

instance : UnorderedLaws Float where
  isNaN_of_lt {x y} h := by
    change (!Binary64.isNaN x && !Binary64.isNaN y && _) = true at h
    simp only [Bool.and_eq_true, Bool.not_eq_true'] at h
    exact h.1
  isNaN_of_eqv {x y} h := by
    change (!Binary64.isNaN x && !Binary64.isNaN y && _) = true at h
    simp only [Bool.and_eq_true, Bool.not_eq_true'] at h
    exact h.1

namespace Quantity

variable {α : Type}

section Unordered

variable [Quantity α] {x y : α}

theorem le_iff : le x y = true ↔ lt x y = true ∨ eqv x y = true := by
  rw [le, Bool.or_eq_true]

theorem le_of_lt (h : lt x y = true) : le x y = true := le_iff.mpr (.inl h)

theorem isNaN_of_le [UnorderedLaws α] (h : le x y = true) : isNaN x = false ∧ isNaN y = false := by
  rcases le_iff.mp h with h | h
  · exact UnorderedLaws.isNaN_of_lt h
  · exact UnorderedLaws.isNaN_of_eqv h

end Unordered

section Chains

variable [WireQuantity α] [LawfulQuantity α] [SignedZeroLaws α] [EqualityLaws α] {x y z : α}

open SignedZeroLaws (lt_eq)
open EqualityLaws (agree_of_eqv)

theorem lt_of_lt_of_le (hxy : lt x y = true) (hyz : le y z = true) : lt x z = true := by
  rcases le_iff.mp hyz with hyz | hyz
  · exact LawfulQuantity.lt_trans hxy hyz
  · rwa [← lt_eq (.refl x) (agree_of_eqv hyz)]

theorem lt_of_le_of_lt (hxy : le x y = true) (hyz : lt y z = true) : lt x z = true := by
  rcases le_iff.mp hxy with hxy | hxy
  · exact LawfulQuantity.lt_trans hxy hyz
  · rwa [lt_eq (agree_of_eqv hxy) (.refl z)]

theorem le_trans (hxy : le x y = true) (hyz : le y z = true) : le x z = true := by
  rcases le_iff.mp hxy with hxy | hxy
  · exact le_of_lt (lt_of_lt_of_le hxy hyz)
  · rwa [le_eq (agree_of_eqv hxy) (.refl z)]

/-- A number is at most another one, or above it. -/
theorem le_eq_not_lt (hx : isNaN x = false) (hy : isNaN y = false) : le x y = !lt y x := by
  rw [Bool.eq_iff_iff, Bool.not_eq_true']
  constructor
  · intro hle
    rw [← Bool.not_eq_true]
    intro hlt
    exact absurd (lt_of_le_of_lt hle hlt) (by simp [LawfulQuantity.lt_irrefl])
  · intro hnot
    cases hlt : lt x y with
    | true => exact le_of_lt hlt
    | false => exact le_iff.mpr (.inr (LawfulQuantity.eqv_of_not_lt hx hy hlt hnot))

end Chains

end Quantity
end TableSteps
