import TableSteps.Decimal.Basic

/-!
The shortest decimal that reads back as a double.

For each count of digits from one upward the two neighbours of the exact value on that decimal grid
are read back. The first grid with a hit wins; of two hits the nearer one, and of two at one
distance the larger.
-/

namespace TableSteps.Decimal

/-- The power of ten of the leading digit of a positive fraction. -/
def leadingPower (num den : Nat) : Int :=
  let reaches (s : Int) : Bool := den * tenTo s.toNat ≤ num * tenTo (-s).toNat
  let guess := (((num.log2 : Int) - den.log2) * 30103).fdiv 100000
  if reaches (guess + 1) then guess + 1
  else if reaches guess then guess
  else guess - 1

/-- The neighbours of the value numbered `k` among the multiples of a power of ten, so far as they
read back as that value. -/
def onGrid? (k : Nat) (power : Int) : Option Decimal :=
  let num := Binary64.numerator k * tenTo (-power).toNat
  let den := Binary64.denominator k * tenTo power.toNat
  let below : Decimal := ⟨num / den, power⟩
  let above : Decimal := ⟨num / den + 1, power⟩
  if below.magnitude = k then
    if above.magnitude = k ∧ den ≤ 2 * (num % den) then some above else some below
  else if above.magnitude = k then some above
  else none

/-- All digits of the value numbered `k`. -/
def exact (k : Nat) : Decimal :=
  let e := Binary64.exponent k
  { digits := Binary64.numerator k * Nat.pow 5 (-e).toNat, exponent := min 0 e }

/-- Moves zeros at the end of the digits into the exponent. -/
def stripZeros (d : Decimal) : Decimal :=
  if h : d.digits ≠ 0 ∧ d.digits % 10 = 0 then stripZeros ⟨d.digits / 10, d.exponent + 1⟩ else d
termination_by d.digits
decreasing_by all_goals omega

/-- The shortest decimal that reads back as the positive value numbered `k`. Seventeen digits
always do. -/
def shortest (k : Nat) : Decimal :=
  let lead := leadingPower (Binary64.numerator k) (Binary64.denominator k)
  let found := (List.range 17).findSome? fun (p : Nat) => onGrid? k (lead - p)
  stripZeros (found.getD (exact k))

theorem onGrid?_magnitude {k : Nat} {power : Int} {d : Decimal} (h : onGrid? k power = some d) :
    d.magnitude = k := by
  simp only [onGrid?] at h
  split at h
  · split at h <;> (cases h; simp_all)
  · split at h
    · cases h; assumption
    · cases h

end TableSteps.Decimal
