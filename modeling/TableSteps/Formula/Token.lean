import TableSteps.Quantity

/-! # Tokens of a formula

A formula is written in numbers, names with or without quotes, and six symbols. -/

namespace TableSteps.Formula

inductive Symbol where
  | plus
  | minus
  | times
  | over
  | opening
  | closing
deriving DecidableEq

def Symbol.char : Symbol → Char
  | .plus => '+'
  | .minus => '-'
  | .times => '*'
  | .over => '/'
  | .opening => '('
  | .closing => ')'

def Symbol.ofChar? : Char → Option Symbol
  | '+' => some .plus
  | '-' => some .minus
  | '*' => some .times
  | '/' => some .over
  | '(' => some .opening
  | ')' => some .closing
  | _ => none

theorem Symbol.ofChar?_char (s : Symbol) : Symbol.ofChar? s.char = some s := by cases s <;> rfl

/-- A piece of a formula. A character that starts no piece is a token too: what to say about it is
the parser's affair. -/
inductive Token (α : Type) where
  | number (x : α)
  | bareName (name : String)
  | quotedName (name : String)
  | symbol (s : Symbol)
  | illegal (c : Char)
deriving DecidableEq

variable {α : Type} [Quantity α]

/-- How a message shows a token. -/
def Token.shown : Token α → String
  | .number x => Quantity.toText x
  | .bareName name => name
  | .quotedName name => s!"'{name}'"
  | .symbol s => s.char.toString
  | .illegal c => s!"illegal '{c}'"

/-- How a message shows the token at some place, or the end of the formula. -/
def shownOrEnd : Option (Token α) → String
  | some t => t.shown
  | none => "end of input"

end TableSteps.Formula
