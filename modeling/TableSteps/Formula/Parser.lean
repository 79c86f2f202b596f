import TableSteps.Formula.Expression

/-! # Tokens to trees

The parser climbs precedences: after an operand it takes every operator that binds tighter than
the operator on its left, reading as the right side whatever binds tighter still. Parentheses and
signs nest at most `maxDepth` deep, both counted together. -/

namespace TableSteps.Formula

/-- Why a formula has no tree. -/
inductive SyntaxError where
  | empty
  | illegal (c : Char)
  | trailing (shown : String)
  | call (name : String)
  | unclosed (shown : String)
  | unexpectedEnd
  | unexpected (shown : String)
  | tooDeep
deriving DecidableEq

/-- The deepest nesting of parentheses and signs. -/
def maxDepth : Nat := 128

namespace SyntaxError

def message : SyntaxError → String
  | .empty => "Empty expression"
  | .illegal c => s!"Illegal character: {c}"
  | .trailing shown => s!"Unexpected token after expression: {shown}"
  | .call name => s!"Function calls are not supported: {name}(...)"
  | .unclosed shown => s!"Expected ), found {shown}"
  | .unexpectedEnd => "Unexpected end of expression"
  | .unexpected shown => s!"Unexpected token: {shown}"
  | .tooDeep => s!"Expression is nested more than {maxDepth} levels deep"

/-- The error as a message of its own. -/
def report (e : SyntaxError) : String := s!"Parse error: {e.message}"

end SyntaxError

/-- The operator that a symbol between two operands writes, and how tight it binds. -/
def Symbol.operator? : Symbol → Option (Operator × Nat)
  | .plus => some (.add, 1)
  | .minus => some (.subtract, 1)
  | .times => some (.multiply, 2)
  | .over => some (.divide, 2)
  | _ => none

variable {α : Type} [Quantity α]

/-- What a reading step gives: a tree and the tokens after it. -/
abbrev Parsed (α : Type) := Except SyntaxError (Expression α × List (Token α))

/-- A column, unless a parenthesis follows its name. -/
def columnOrCall (name : String) (rest : List (Token α)) : Parsed α :=
  match rest with
  | .symbol .opening :: _ => .error (.call name)
  | _ => .ok (.column name, rest)

/-- The closing parenthesis after a tree. -/
def closing (inner : Expression α) : List (Token α) → Parsed α
  | .symbol .closing :: rest => .ok (inner, rest)
  | rest => .error (.unclosed (shownOrEnd rest.head?))

mutual

/-- A tree whose operators bind tighter than `power`. The first argument bounds the number of
steps, `depth` is the nesting so far. -/
def readExpression (fuel depth power : Nat) (ts : List (Token α)) : Parsed α :=
  match fuel with
  | 0 => .error .unexpectedEnd
  | fuel + 1 =>
    match readOperand fuel depth ts with
    | .error e => .error e
    | .ok (left, rest) => climb fuel depth power left rest

/-- Extends the tree on the left by every operator that binds tighter than `power`. -/
def climb (fuel depth power : Nat) (left : Expression α) (ts : List (Token α)) : Parsed α :=
  match fuel, ts with
  | fuel + 1, .symbol s :: rest =>
    match s.operator? with
    | none => .ok (left, ts)
    | some (op, tightness) =>
      if tightness ≤ power then .ok (left, ts)
      else
        match readExpression fuel depth tightness rest with
        | .error e => .error e
        | .ok (right, rest) => climb fuel depth power (.binary op left right) rest
  | _, _ => .ok (left, ts)

/-- A number, a column, a tree in parentheses or a signed operand. -/
def readOperand (fuel depth : Nat) (ts : List (Token α)) : Parsed α :=
  match fuel, ts with
  | 0, _ => .error .unexpectedEnd
  | _, [] => .error .unexpectedEnd
  | _, .number x :: rest => .ok (.number x, rest)
  | _, .bareName name :: rest => columnOrCall name rest
  | _, .quotedName name :: rest => columnOrCall name rest
  | _, .illegal c :: _ => .error (.illegal c)
  | fuel + 1, .symbol s :: rest =>
    match s with
    | .minus =>
      if maxDepth ≤ depth then .error .tooDeep
      else
        match readOperand fuel (depth + 1) rest with
        | .error e => .error e
        | .ok (operand, rest) => .ok (.negate operand, rest)
    | .opening =>
      if maxDepth ≤ depth then .error .tooDeep
      else
        match readExpression fuel (depth + 1) 0 rest with
        | .error e => .error e
        | .ok (inner, rest) => closing inner rest
    | s => .error (.unexpected (Token.symbol (α := α) s).shown)

end

/-- Nothing may follow the tree. -/
def finished (e : Expression α) : List (Token α) → Except SyntaxError (Expression α)
  | [] => .ok e
  | .illegal c :: _ => .error (.illegal c)
  | t :: _ => .error (.trailing t.shown)

/-- The tree of a whole list of tokens. -/
def parseTokens (ts : List (Token α)) : Except SyntaxError (Expression α) :=
  if ts.isEmpty then .error .empty
  else
    match readExpression (2 * ts.length + 2) 0 0 ts with
    | .error e => .error e
    | .ok (e, rest) => finished e rest

/-- The tree of a formula. -/
def parse (text : String) : Except SyntaxError (Expression α) := parseTokens (tokens text)

end TableSteps.Formula
