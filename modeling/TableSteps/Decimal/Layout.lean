import TableSteps.Decimal.Shortest
import TableSteps.Binary64.Order

/-!
The two written forms of a double, both with its shortest digits.

`plain` is what a label, a token or a message shows: never an exponent, no point without places,
and words for what is not finite. `scientific` is what a JSON document holds: always a point or an
exponent, which sets it apart from a whole number.
-/

namespace TableSteps

namespace Decimal

/-- The digits with the point in its place and without an exponent. -/
def positional (d : Decimal) : List Char :=
  let digits := Nat.toDigits 10 d.digits
  if 0 ≤ d.exponent then digits ++ List.replicate d.exponent.toNat '0'
  else
    let places := (-d.exponent).toNat
    if places < digits.length then
      digits.take (digits.length - places) ++ '.' :: digits.drop (digits.length - places)
    else '0' :: '.' :: (List.replicate (places - digits.length) '0' ++ digits)

/-- One digit before the point, the others behind it, then the exponent. -/
def scientific (d : Decimal) : List Char :=
  let digits := Nat.toDigits 10 d.digits
  let power : Int := d.exponent + (digits.length - 1 : Nat)
  let sign := if power < 0 then '-' else '+'
  let point := if digits.length ≤ 1 then [] else '.' :: digits.drop 1
  digits.take 1 ++ point ++ 'e' :: sign :: Nat.toDigits 10 power.natAbs

end Decimal

namespace Binary64

/-- The text of a double outside JSON. -/
def toText (x : Float) : String :=
  if isNaN x then "NaN"
  else
    let sign := if isNegative x then ['-'] else []
    let body :=
      if magnitude x = limit then "inf".toList
      else if magnitude x = 0 then ['0']
      else (Decimal.shortest (magnitude x)).positional
    String.ofList (sign ++ body)

/-- The text of a finite double in JSON: positional while the leading digit stands between the
fifth place behind the point and the sixteenth before it. -/
def toJsonText (x : Float) : String :=
  let sign := if isNegative x then ['-'] else []
  let body :=
    if magnitude x = 0 then "0.0".toList
    else
      let d := Decimal.shortest (magnitude x)
      let lead := d.exponent + ((Nat.toDigits 10 d.digits).length - 1 : Nat)
      if -5 ≤ lead ∧ lead ≤ 15 then
        d.positional ++ (if 0 ≤ d.exponent then ".0".toList else [])
      else d.scientific
  String.ofList (sign ++ body)

end Binary64
end TableSteps
