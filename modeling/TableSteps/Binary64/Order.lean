import TableSteps.Binary64.Magnitude

/-!
Signs, classes and orders of doubles, read off their bit patterns.

Every pattern of 64 bits makes a double, but all patterns that are no number make the same one: a
double keeps neither the sign nor the other bits of what is no number. Where these count, as they do
for the code that equal numbers share, a function is one of patterns (`canonicalPattern`).

`rank` places the numbers on the line of whole numbers, both zeros at `0`: two doubles that are
numbers compare as their ranks do. `totalRank` tells the zeros apart, the negative one first, and
places the double that is no number behind all numbers.
-/

namespace TableSteps.Binary64

/-- The pattern of the sign alone. -/
def signBit : Nat := 0x8000000000000000

/-- The largest 64-bit word. -/
def largestWord : Nat := 0xFFFFFFFFFFFFFFFF

/-- The bits below the sign. -/
def below (bits : UInt64) : Nat := bits.toNat % signBit

def magnitude (x : Float) : Nat := below x.toBits

def isNegative (x : Float) : Bool := signBit ≤ x.toBits.toNat

def isNaN (x : Float) : Bool := limit < magnitude x

def isFinite (x : Float) : Bool := magnitude x < limit

/-- The double with this sign and these bits below it. -/
def ofMagnitude (negative : Bool) (k : Nat) : Float :=
  Float.ofBits (UInt64.ofNat (if negative then signBit + k else k))

def rank (x : Float) : Int := if isNegative x then -magnitude x else magnitude x

def totalRank (x : Float) : Int := if isNegative x then -magnitude x - 1 else magnitude x

/-- Numerical order; false as soon as one side is no number. -/
def lt (x y : Float) : Bool := !isNaN x && !isNaN y && decide (rank x < rank y)

/-- Numerical equality: both zeros are one number, and what is no number equals nothing. -/
def eqv (x y : Float) : Bool := !isNaN x && !isNaN y && decide (rank x = rank y)

def totalLe (x y : Float) : Bool := decide (totalRank x ≤ totalRank y)

/-- The double closest to a whole number. -/
def ofInt (n : Int) : Float := ofMagnitude (decide (n < 0)) (nearest n.natAbs 1)

/-- The largest whole number that is not above a finite nonnegative double. Below zero, and where
there is no number, the answer is zero; infinity gives the largest 64-bit word. -/
def floorNat (x : Float) : Nat :=
  if isNegative x || isNaN x then 0
  else if isFinite x then min largestWord (numerator (magnitude x) / denominator (magnitude x))
  else largestWord

/-- The least whole number that is not below the double, in the same range as `floorNat`. -/
def ceilNat (x : Float) : Nat :=
  if isNegative x || isNaN x then 0
  else if isFinite x then
    let d := denominator (magnitude x)
    min largestWord ((numerator (magnitude x) + d - 1) / d)
  else largestWord

/-- A finite double without a fraction. -/
def isWhole (x : Float) : Bool :=
  isFinite x && numerator (magnitude x) % denominator (magnitude x) = 0

/-- One pattern for each number: the negative zero becomes zero, and every pattern that is no
number, whatever its sign and its other bits are, becomes one of them. -/
def canonicalPattern (bits : UInt64) : UInt64 :=
  if limit < below bits then 0x7FF8000000000000
  else if below bits = 0 then 0
  else bits

def canonicalBits (x : Float) : UInt64 := canonicalPattern x.toBits

theorem totalLe_total (x y : Float) : (totalLe x y || totalLe y x) = true := by
  simp [totalLe]; omega

theorem totalLe_trans {x y z : Float} (h : totalLe x y = true) (g : totalLe y z = true) :
    totalLe x z = true := by
  simp [totalLe] at *; omega

theorem lt_trans {x y z : Float} (h : lt x y = true) (g : lt y z = true) : lt x z = true := by
  simp only [lt, Bool.and_eq_true, decide_eq_true_eq] at *
  exact ⟨⟨h.1.1, g.1.2⟩, Int.lt_trans h.2 g.2⟩

theorem lt_irrefl (x : Float) : lt x x = false := by simp [lt]

end TableSteps.Binary64
