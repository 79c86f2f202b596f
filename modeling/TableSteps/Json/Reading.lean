import TableSteps.Json.Basic
import TableSteps.Decimal.Reading

/-!
JSON text to values.

A number without a point and an exponent is a whole number while it fits a signed or an unsigned
64-bit word; the negative zero and everything else is the closest double. Escapes in a text may
spell a character past the basic plane by its two surrogates; a surrogate that stands alone is
refused.
-/

namespace TableSteps.Json

def isJsonBlank (c : Char) : Bool := c = ' ' || c = '\n' || c = '\r' || c = '\t'

def skipBlanks (cs : List Char) : List Char := cs.dropWhile isJsonBlank

def hexDigit? (c : Char) : Option Nat :=
  if c.isDigit then some (c.toNat - 48)
  else if 'a' ≤ c ∧ c ≤ 'f' then some (c.toNat - 87)
  else if 'A' ≤ c ∧ c ≤ 'F' then some (c.toNat - 55)
  else none

/-- Four hexadecimal digits. -/
def hexWord? (a b c d : Char) : Option Nat := do
  pure (4096 * (← hexDigit? a) + 256 * (← hexDigit? b) + 16 * (← hexDigit? c) + (← hexDigit? d))

/-- The character that a backslash and one more character spell. -/
def shortEscape? : Char → Option Char
  | '"' => some '"'
  | '\\' => some '\\'
  | '/' => some '/'
  | 'b' => some '\x08'
  | 'f' => some '\x0c'
  | 'n' => some '\n'
  | 'r' => some '\r'
  | 't' => some '\t'
  | _ => none

def isHighSurrogate (n : Nat) : Bool := 0xD800 ≤ n && n < 0xDC00

def isLowSurrogate (n : Nat) : Bool := 0xDC00 ≤ n && n < 0xE000

/-- A text after its opening quote, and what follows the closing one. -/
def readText? : List Char → Option (List Char × List Char)
  | [] => none
  | '"' :: rest => some ([], rest)
  | '\\' :: 'u' :: a :: b :: c :: d :: '\\' :: 'u' :: e :: f :: g :: h :: rest => do
    let first ← hexWord? a b c d
    let second ← hexWord? e f g h
    if isHighSurrogate first then
      if isLowSurrogate second then
        let (cs, rest) ← readText? rest
        pure (Char.ofNat (0x10000 + 1024 * (first - 0xD800) + (second - 0xDC00)) :: cs, rest)
      else none
    else if isLowSurrogate first then none
    else
      let (cs, rest) ← readText? ('\\' :: 'u' :: e :: f :: g :: h :: rest)
      pure (Char.ofNat first :: cs, rest)
  | '\\' :: 'u' :: a :: b :: c :: d :: rest => do
    let n ← hexWord? a b c d
    if isHighSurrogate n || isLowSurrogate n then none
    else
      let (cs, rest) ← readText? rest
      pure (Char.ofNat n :: cs, rest)
  | '\\' :: c :: rest => do
    let c ← shortEscape? c
    let (cs, rest) ← readText? rest
    pure (c :: cs, rest)
  | c :: rest => do
    if c.toNat < 32 then none
    else
      let (cs, rest) ← readText? rest
      pure (c :: cs, rest)
termination_by cs => cs.length

def fitsWord (n : Int) : Bool := -0x8000000000000000 ≤ n && n ≤ 0xFFFFFFFFFFFFFFFF

/-- The value of a number's text without its sign. -/
def unsignedNumber? (negative : Bool) (cs : List Char) : Option Json :=
  let whole := cs.takeWhile Char.isDigit
  let rest := cs.dropWhile Char.isDigit
  let wellFormed :=
    !whole.isEmpty && (whole.head? ≠ some '0' || whole.length = 1) &&
      (rest.head? ≠ some '.' || (rest.drop 1).head?.any Char.isDigit)
  if !wellFormed then none
  else
    let size : Int := Nat.ofDigitChars 10 whole 0
    let value := if negative then -size else size
    if rest.isEmpty && fitsWord value && !(negative && size = 0) then some (.int value)
    else (Decimal.read? cs).map fun d => .float (Binary64.ofMagnitude negative d.magnitude)

def isNumberChar (c : Char) : Bool :=
  c.isDigit || c = '-' || c = '+' || c = '.' || c = 'e' || c = 'E'

def readNumber? (cs : List Char) : Option (Json × List Char) :=
  let text := cs.takeWhile isNumberChar
  let value := match text with
    | '-' :: digits => unsignedNumber? true digits
    | digits => unsignedNumber? false digits
  value.map (·, cs.dropWhile isNumberChar)

/-- Takes a word off the front. -/
def dropWord? (word : String) (cs : List Char) : Option (List Char) :=
  if word.toList.isPrefixOf cs then some (cs.drop word.length) else none

mutual

/-- One value and what follows it. The first argument bounds the number of steps. -/
def readValue? : Nat → List Char → Option (Json × List Char)
  | 0, _ => none
  | fuel + 1, cs =>
    match skipBlanks cs with
    | '[' :: rest =>
      match skipBlanks rest with
      | ']' :: rest => some (.arr [], rest)
      | rest => (readItems? fuel rest).map fun (items, rest) => (.arr items, rest)
    | '\x7b' :: rest =>
      match skipBlanks rest with
      | '\x7d' :: rest => some (.obj [], rest)
      | rest => (readMembers? fuel rest).map fun (fields, rest) => (.obj fields, rest)
    | '"' :: rest => (readText? rest).map fun (cs, rest) => (.str (String.ofList cs), rest)
    | 'n' :: rest => (dropWord? "ull" rest).map (.null, ·)
    | 't' :: rest => (dropWord? "rue" rest).map (.bool true, ·)
    | 'f' :: rest => (dropWord? "alse" rest).map (.bool false, ·)
    | rest => readNumber? rest

/-- The items of an array up to and with its closing bracket. -/
def readItems? : Nat → List Char → Option (List Json × List Char)
  | 0, _ => none
  | fuel + 1, cs => do
    let (item, rest) ← readValue? fuel cs
    match skipBlanks rest with
    | ',' :: rest =>
      let (items, rest) ← readItems? fuel rest
      pure (item :: items, rest)
    | ']' :: rest => pure ([item], rest)
    | _ => none

/-- The members of an object up to and with its closing brace. -/
def readMembers? : Nat → List Char → Option (List (String × Json) × List Char)
  | 0, _ => none
  | fuel + 1, cs => do
    match skipBlanks cs with
    | '"' :: rest =>
      let (name, rest) ← readText? rest
      match skipBlanks rest with
      | ':' :: rest =>
        let (value, rest) ← readValue? fuel rest
        match skipBlanks rest with
        | ',' :: rest =>
          let (members, rest) ← readMembers? fuel rest
          pure ((String.ofList name, value) :: members, rest)
        | '\x7d' :: rest => pure ([(String.ofList name, value)], rest)
        | _ => none
      | _ => none
    | _ => none

end

/-- The value that a whole text writes, blanks around it apart. -/
def ofText? (text : String) : Option Json :=
  let cs := text.toList
  match readValue? (2 * cs.length + 2) cs with
  | some (value, rest) => if (skipBlanks rest).isEmpty then some value else none
  | none => none

end TableSteps.Json
