/-! # Classes of characters

A class is given as ranges of code points with both ends inside. The blank characters are those with
the White_Space property: they separate the tokens of a formula and are taken off both ends of a
text before it is read as a number or judged empty. -/

namespace TableSteps.Text

/-- A set of characters as a list of closed ranges of code points. -/
abbrev CharClass := List (Nat × Nat)

/-- Some range contains the character. -/
def CharClass.holds (ranges : CharClass) (c : Char) : Bool :=
  ranges.any fun r => r.1 ≤ c.toNat && c.toNat ≤ r.2

theorem CharClass.holds_iff {ranges : CharClass} {c : Char} :
    ranges.holds c = true ↔ ∃ r ∈ ranges, r.1 ≤ c.toNat ∧ c.toNat ≤ r.2 := by
  simp [CharClass.holds]

/-- The characters with the White_Space property. -/
def blankRanges : CharClass :=
  [ (0x9, 0xd), (0x20, 0x20), (0x85, 0x85), (0xa0, 0xa0), (0x1680, 0x1680), (0x2000, 0x200a),
    (0x2028, 0x2029), (0x202f, 0x202f), (0x205f, 0x205f), (0x3000, 0x3000) ]

def isBlank (c : Char) : Bool := blankRanges.holds c

/-- The text without the blanks at its ends. -/
def trim (cs : List Char) : List Char :=
  ((cs.dropWhile isBlank).reverse.dropWhile isBlank).reverse

/-- The name holds nothing but blanks. -/
def isBlankName (name : String) : Bool := name.toList.all isBlank

end TableSteps.Text
