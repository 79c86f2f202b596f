import TableSteps.Quantity

/-! # The four arithmetic operators

One set of operators serves the combined columns of an aggregation, the computed columns of a
transform, the combined formulas of a summary and the formulas written as text. -/

namespace TableSteps

inductive Operator where
  | add
  | subtract
  | multiply
  | divide
deriving DecidableEq

namespace Operator

def all : List Operator := [.add, .subtract, .multiply, .divide]

def symbol : Operator → String
  | .add => "+"
  | .subtract => "-"
  | .multiply => "*"
  | .divide => "/"

variable {α : Type} [Quantity α]

/-- Division by a zero of either sign has no value. -/
def eval (op : Operator) (x y : α) : Option α :=
  match op with
  | .add => some (x + y)
  | .subtract => some (x - y)
  | .multiply => some (x * y)
  | .divide => if Quantity.isZero y then none else some (x / y)

/-- A missing operand leaves no value. -/
def evalOption (op : Operator) : Option α → Option α → Option α
  | some x, some y => op.eval x y
  | _, _ => none

@[simp] theorem evalOption_none_left (op : Operator) (y : Option α) :
    op.evalOption none y = none := rfl

@[simp] theorem evalOption_none_right (op : Operator) (x : Option α) :
    op.evalOption x none = none := by cases x <;> rfl

@[simp] theorem evalOption_some (op : Operator) (x y : α) :
    op.evalOption (some x) (some y) = op.eval x y := rfl

theorem evalOption_eq_none_iff {op : Operator} {x y : Option α} :
    op.evalOption x y = none ↔
      x = none ∨ y = none ∨ op = .divide ∧ ∃ z, y = some z ∧ Quantity.isZero z = true := by
  cases x <;> cases y <;> cases op <;> simp [eval]

end Operator
end TableSteps
