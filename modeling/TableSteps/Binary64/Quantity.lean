import TableSteps.Quantity
import TableSteps.Decimal.Reading
import TableSteps.Decimal.Layout

/-! # Doubles as the numbers of a table

Arithmetic is that of the machine. Comparison, rounding, keys and texts are those of the bit
pattern, so that every fact about them is one about whole numbers.

Keys are made of patterns as well. A pattern keeps what a double does not, the sign and the other
bits of what is no number, and its key is the one that its double has. -/

namespace TableSteps.Binary64

/-- A number as its 64 bits, whatever they are. -/
structure Pattern where
  bits : UInt64
deriving DecidableEq

instance : Keyed Pattern where
  Key := UInt64
  decEqKey := inferInstance
  key p := canonicalPattern p.bits
  ofKey := Pattern.mk

instance : Quantity Float where
  toAdd := inferInstance
  toSub := inferInstance
  toMul := inferInstance
  toDiv := inferInstance
  toNeg := inferInstance
  ofNat n := ofInt n
  isNaN := isNaN
  isFinite := isFinite
  lt := lt
  eqv := eqv
  totalLe := totalLe
  floorNat := floorNat
  ceilNat := ceilNat
  Key := UInt64
  decEqKey := inferInstance
  key := canonicalBits
  ofKey := Float.ofBits
  ofText? := ofText?
  toText := toText

instance : WireQuantity Float where
  ofInt := ofInt
  ofFloat := id
  toJson := Json.ofFloat

end TableSteps.Binary64
