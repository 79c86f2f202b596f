/-!
The nonnegative doubles as a row of exact values.

A finite nonnegative double is named by its bit pattern read as a number: `0` is zero, `1` the
least positive value, and one more is always the next value up. `limit` is the pattern of infinity.
The value numbered `k` is `significand k * 2 ^ exponent k`, and `nearest` goes back from an exact
fraction: it gives the number of the closest value, a tie going to the even significand.
-/

namespace TableSteps.Binary64

/-- The pattern of positive infinity. The finite magnitudes are the numbers below it. -/
def limit : Nat := 0x7FF0000000000000

/-- How many magnitudes share one exponent. -/
def binade : Nat := 0x10000000000000

def significand (k : Nat) : Nat := if k < binade then k else k % binade + binade

def exponent (k : Nat) : Int := if k < binade then -1074 else (k / binade : Nat) - 1075

/-- The value numbered `k` is `numerator k / denominator k`. -/
def numerator (k : Nat) : Nat := significand k <<< (exponent k).toNat

def denominator (k : Nat) : Nat := 1 <<< (-exponent k).toNat

theorem denominator_pos (k : Nat) : 0 < denominator k := by
  simp only [denominator, Nat.shiftLeft_eq, Nat.one_mul]
  exact Nat.two_pow_pos _

/-- The whole number closest to `num / den`; a half goes to the even neighbour. -/
def roundDiv (num den : Nat) : Nat :=
  let low := num / den
  let rest := 2 * (num % den)
  if rest < den then low
  else if den < rest then low + 1
  else if low % 2 = 0 then low else low + 1

/-- The power of two in which the closest double to a positive fraction counts its significand:
the one that leaves 53 bits before the point, but never below the power of the least values. -/
def unit (num den : Nat) : Int :=
  let guess : Int := (num.log2 : Int) - den.log2 - 52
  let short := num <<< (-guess).toNat < binade * (den <<< guess.toNat)
  max (-1074) (if short then guess - 1 else guess)

/-- The number of the double closest to `num / den`, ties going to the even significand and
everything past the largest finite value to infinity. -/
def nearest (num den : Nat) : Nat :=
  if num = 0 then 0 else
    let u := unit num den
    let m := roundDiv (num <<< (-u).toNat) (den <<< u.toNat)
    min limit ((u + 1074).toNat * binade + m)

end TableSteps.Binary64
