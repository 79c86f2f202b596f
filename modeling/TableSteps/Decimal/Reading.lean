import TableSteps.Decimal.Basic
import TableSteps.Binary64.Order

/-!
Numbers written as text.

A numeral is a run of digits with at most one point and at least one digit, then perhaps an
exponent: `12`, `.5`, `3.`, `1e-7`. A text is a numeral or one of the words `inf`, `infinity` and
`nan` in any mixture of cases, with at most one sign in front and nothing around it.
-/

namespace TableSteps

namespace Decimal

/-- The rest of a numeral after its digits: nothing, or the mark `e` and a signed whole number. -/
def readExponent? : List Char → Option Int
  | [] => some 0
  | mark :: rest =>
    if mark = 'e' ∨ mark = 'E' then
      let (negative, digits) := match rest with
        | '-' :: ds => (true, ds)
        | '+' :: ds => (false, ds)
        | ds => (false, ds)
      if digits.isEmpty || !digits.all Char.isDigit then none
      else
        let size : Int := Nat.ofDigitChars 10 digits 0
        some (if negative then -size else size)
    else none

/-- An unsigned numeral. -/
def read? (cs : List Char) : Option Decimal :=
  let whole := cs.takeWhile Char.isDigit
  let afterWhole := cs.dropWhile Char.isDigit
  let (places, rest) := match afterWhole with
    | '.' :: r => (r.takeWhile Char.isDigit, r.dropWhile Char.isDigit)
    | r => ([], r)
  if (whole ++ places).isEmpty then none
  else (readExponent? rest).map fun e =>
    { digits := Nat.ofDigitChars 10 (whole ++ places) 0, exponent := e - places.length }

end Decimal

namespace Binary64

/-- A word or numeral without its sign, as the bits below the sign. -/
def readMagnitude? (cs : List Char) : Option Nat :=
  let word := cs.map Char.toLower
  if word = "inf".toList ∨ word = "infinity".toList then some limit
  else if word = "nan".toList then some 0x7FF8000000000000
  else (Decimal.read? cs).map Decimal.magnitude

/-- The double that a whole text writes. -/
def ofText? : List Char → Option Float
  | '-' :: cs => (readMagnitude? cs).map (ofMagnitude true)
  | '+' :: cs => (readMagnitude? cs).map (ofMagnitude false)
  | cs => (readMagnitude? cs).map (ofMagnitude false)

end Binary64
end TableSteps
