import TableSteps.Binary64.Magnitude

/-!
Exact decimal numbers and the double closest to one.
-/

namespace TableSteps

/-- The number `digits * 10 ^ exponent`. -/
structure Decimal where
  digits : Nat
  exponent : Int
deriving DecidableEq, Repr

namespace Decimal

/-- A power of ten. -/
def tenTo (n : Nat) : Nat := Nat.pow 10 n

theorem tenTo_pos (n : Nat) : 0 < tenTo n := Nat.pow_pos (by decide)

/-- The number of the double closest to a decimal. An exponent so far out that the answer must be
infinity or zero is settled without writing the power of ten. -/
def magnitude (d : Decimal) : Nat :=
  if d.digits = 0 then 0
  else if 400 < d.exponent then Binary64.limit
  else if d.exponent < -400 - (d.digits.log2 : Int) then 0
  else Binary64.nearest (d.digits * tenTo d.exponent.toNat) (tenTo (-d.exponent).toNat)

end Decimal
end TableSteps
