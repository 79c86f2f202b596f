import TableSteps.Proofs.Binary64.Rounding
import TableSteps.Proofs.Binary64.Lawful
import TableSteps.Proofs.Finite.Basic

/-! # Doubles that are stored stay finite

A word is far below the largest double, so no whole number of a document is rounded to infinity. -/

namespace TableSteps.Binary64

theorem isFinite_ofInt {n : Int} (h : n.natAbs ≤ 2 ^ 64) : isFinite (ofInt n) = true := by
  have hlt : nearest n.natAbs 1 < limit :=
    nearest_lt_limit Nat.one_pos (by decide : 65 ≤ 1000) (by omega)
  rw [isFinite, ofInt, magnitude_ofMagnitude (Nat.le_of_lt hlt), decide_eq_true_eq]
  exact hlt

theorem isFinite_ofBits_canonicalBits {x : Float} (h : isFinite x = true) :
    isFinite (Float.ofBits (canonicalBits x)) = true := by
  have hnan : ¬ limit < below x.toBits := Nat.not_lt.mpr (Nat.le_of_lt (of_decide_eq_true h))
  by_cases hzero : below x.toBits = 0
  · have hcode : canonicalBits x = 0 := by
      rw [canonicalBits, canonicalPattern, if_neg hnan, if_pos hzero]
    rw [hcode]
    rfl
  · have hcode : canonicalBits x = x.toBits := by
      rw [canonicalBits, canonicalPattern, if_neg hnan, if_neg hzero]
    rw [hcode, Float.ofBits_toBits]
    exact h

instance : FiniteLaws Float where
  isFinite_ofKey_key := isFinite_ofBits_canonicalBits
  isFinite_ofNat {n} h := isFinite_ofInt (by simpa using Nat.le_of_lt h)
  isFinite_ofInt {n} h := by
    refine isFinite_ofInt ?_
    simp only [Json.fitsWord, Bool.and_eq_true, decide_eq_true_eq] at h
    omega
  isFinite_ofFloat h := h
  ofJson?_toJson {x} h := by
    have hx : isFinite x = true := h
    change WireQuantity.ofJson? (Json.ofFloat x) = some x
    rw [Json.ofFloat, if_pos hx]
    rfl

end TableSteps.Binary64
