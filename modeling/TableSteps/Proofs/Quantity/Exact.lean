import Mathlib.Data.Rat.Floor
import TableSteps.Proofs.Quantity.Order

/-! # Exact numbers

The rationals are quantities whose arithmetic does not round. There is one zero among them and
nothing but numbers, so every law asked of quantities holds; what is said of exact sums is said of
them in particular. -/

namespace TableSteps

/-- The number that a decimal writes. -/
def Decimal.value (d : Decimal) : ℚ := d.digits * (10 : ℚ) ^ d.exponent

namespace Rational

open Quantity

/-- The number that a finite double stands for. -/
def ofFloat (x : Float) : ℚ :=
  let k := Binary64.magnitude x
  let size : ℚ := Binary64.numerator k / Binary64.denominator k
  if Binary64.isNegative x then -size else size

/-- The double closest to a number. -/
def toFloat (x : ℚ) : Float :=
  Binary64.ofMagnitude (decide (x < 0)) (Binary64.nearest x.num.natAbs x.den)

def ofText? : List Char → Option ℚ
  | '-' :: cs => (Decimal.read? cs).map fun d => -d.value
  | '+' :: cs => (Decimal.read? cs).map Decimal.value
  | cs => (Decimal.read? cs).map Decimal.value

instance : Quantity ℚ where
  toAdd := inferInstance
  toSub := inferInstance
  toMul := inferInstance
  toDiv := inferInstance
  toNeg := inferInstance
  ofNat n := n
  isNaN _ := false
  isFinite _ := true
  lt x y := decide (x < y)
  eqv x y := decide (x = y)
  totalLe x y := decide (x ≤ y)
  floorNat x := ⌊x⌋₊
  ceilNat x := ⌈x⌉₊
  Key := ℚ
  decEqKey := inferInstance
  key := id
  ofKey := id
  ofText? := ofText?
  toText := toString

instance : WireQuantity ℚ where
  ofInt n := n
  ofFloat := ofFloat
  toJson x := if x.den = 1 then .int x.num else .float (toFloat x)

/-- There is one zero. -/
theorem agree_iff {x y : ℚ} : Agree x y ↔ x = y := by
  refine ⟨fun h => ?_, fun h => .inl h⟩
  rcases h with h | ⟨hx, hy⟩
  · exact h
  · rw [of_decide_eq_true hx, of_decide_eq_true hy]

instance : LawfulQuantity ℚ where
  key_ofKey_key _ := rfl
  isNaN_of_isFinite _ := rfl
  lt_irrefl x := decide_eq_false (lt_irrefl x)
  lt_trans h h' := decide_eq_true (lt_trans (of_decide_eq_true h) (of_decide_eq_true h'))
  lt_or_lt {x y z} h _ := by
    rcases lt_or_ge x y with hxy | hyx
    · exact .inl (decide_eq_true hxy)
    · exact .inr (decide_eq_true (hyx.trans_lt (of_decide_eq_true h)))
  eqv_of_not_lt _ _ h h' :=
    decide_eq_true (le_antisymm (not_lt.mp (of_decide_eq_false h'))
      (not_lt.mp (of_decide_eq_false h)))

instance : EqualityLaws ℚ where
  agree_of_eqv h := agree_iff.mpr (of_decide_eq_true h)

instance : TotalOrderLaws ℚ where
  totalLe_total x y := by
    rw [Bool.or_eq_true]
    exact (le_total x y).imp decide_eq_true decide_eq_true
  totalLe_trans h h' := decide_eq_true (le_trans (of_decide_eq_true h) (of_decide_eq_true h'))

instance : SignedZeroLaws ℚ where
  agree_add h h' := agree_iff.mpr (congrArg₂ HAdd.hAdd (agree_iff.mp h) (agree_iff.mp h'))
  agree_sub h h' := agree_iff.mpr (congrArg₂ HSub.hSub (agree_iff.mp h) (agree_iff.mp h'))
  agree_mul h h' := agree_iff.mpr (congrArg₂ HMul.hMul (agree_iff.mp h) (agree_iff.mp h'))
  agree_div h := agree_iff.mpr (congrArg (· / _) (agree_iff.mp h))
  agree_neg h := agree_iff.mpr (congrArg Neg.neg (agree_iff.mp h))
  isNaN_eq _ := rfl
  isFinite_eq _ := rfl
  lt_eq h h' := by rw [agree_iff.mp h, agree_iff.mp h']
  eqv_eq h h' := by rw [agree_iff.mp h, agree_iff.mp h']
  key_eq_key_iff := agree_iff.symm
  agree_of_totalLe h h' hle hle' := by
    rw [agree_iff] at h h' ⊢
    subst h h'
    exact le_antisymm (of_decide_eq_true hle) (of_decide_eq_true hle')
  agree_toJson h := by
    rw [agree_iff.mp h]
    exact .refl _

theorem exactAddition : ExactAddition ℚ := ⟨Rat.add_comm, Rat.add_assoc⟩

theorem exactSums : ExactSums ℚ := ⟨exactAddition, fun x => by exact_mod_cast zero_add x⟩

end Rational
end TableSteps
