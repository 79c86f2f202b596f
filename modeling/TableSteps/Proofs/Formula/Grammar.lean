import TableSteps.Formula.Parser

/-! # The grammar of formulas

The grammar has two levels of operators over operands with signs:

* a sum is `product (('+' | '-') product)*`,
* a product is `signed (('*' | '/') signed)*`,
* a signed operand is `'-' signed` or a primary,
* a primary is a number, a name with or without quotes, or `'(' sum ')'`.

A repetition is given here by its last step: it is its first member alone, or a shorter repetition
with one more operator and member behind it. That is the tree folded to the left. -/

namespace TableSteps.Formula

inductive Phrase where
  | sum
  | product
  | signed
  | primary
deriving DecidableEq

/-- The operators between the members of a sum. -/
inductive Additive : Symbol → Operator → Prop where
  | plus : Additive .plus .add
  | minus : Additive .minus .subtract

/-- The operators between the members of a product. -/
inductive Multiplicative : Symbol → Operator → Prop where
  | times : Multiplicative .times .multiply
  | over : Multiplicative .over .divide

variable {α : Type}

/-- `Derives phrase ts e d` derives the tokens `ts` as such a phrase with the tree `e`, and `d` is
the greatest number of parentheses and signs that one of the tokens lies under. -/
inductive Derives : Phrase → List (Token α) → Expression α → Nat → Prop where
  | number {x : α} : Derives .primary [.number x] (.number x) 0
  | bareName {name : String} : Derives .primary [.bareName name] (.column name) 0
  | quotedName {name : String} : Derives .primary [.quotedName name] (.column name) 0
  | parenthesized {ts : List (Token α)} {e : Expression α} {d : Nat} :
      Derives .sum ts e d →
      Derives .primary (.symbol .opening :: (ts ++ [.symbol .closing])) e (d + 1)
  | primary {ts : List (Token α)} {e : Expression α} {d : Nat} :
      Derives .primary ts e d → Derives .signed ts e d
  | negated {ts : List (Token α)} {e : Expression α} {d : Nat} :
      Derives .signed ts e d → Derives .signed (.symbol .minus :: ts) (.negate e) (d + 1)
  | signed {ts : List (Token α)} {e : Expression α} {d : Nat} :
      Derives .signed ts e d → Derives .product ts e d
  | scaled {ts us : List (Token α)} {l r : Expression α} {d d' : Nat} {s : Symbol}
      {op : Operator} :
      Multiplicative s op → Derives .product ts l d → Derives .signed us r d' →
      Derives .product (ts ++ .symbol s :: us) (.binary op l r) (max d d')
  | product {ts : List (Token α)} {e : Expression α} {d : Nat} :
      Derives .product ts e d → Derives .sum ts e d
  | added {ts us : List (Token α)} {l r : Expression α} {d d' : Nat} {s : Symbol}
      {op : Operator} :
      Additive s op → Derives .sum ts l d → Derives .product us r d' →
      Derives .sum (ts ++ .symbol s :: us) (.binary op l r) (max d d')

/-! ## Phrases by the power of their operators -/

/-- The phrase whose operators all bind tighter than a power. -/
def Phrase.above : Nat → Phrase
  | 0 => .sum
  | 1 => .product
  | _ => .signed

/-- The table of powers has the additive operators at one and the multiplicative ones at two. -/
theorem Symbol.operator?_eq_some_iff {s : Symbol} {op : Operator} {power : Nat} :
    s.operator? = some (op, power) ↔
      power = 1 ∧ Additive s op ∨ power = 2 ∧ Multiplicative s op := by
  constructor
  · intro h
    cases s <;> cases h
    · exact .inl ⟨rfl, .plus⟩
    · exact .inl ⟨rfl, .minus⟩
    · exact .inr ⟨rfl, .times⟩
    · exact .inr ⟨rfl, .over⟩
  · rintro (⟨rfl, h⟩ | ⟨rfl, h⟩) <;> cases h <;> rfl

namespace Derives

variable {ts us : List (Token α)} {e l r : Expression α} {d d' : Nat}

/-- A phrase of tight operators alone is also a phrase that allows looser ones. -/
theorem weaken {p q : Nat} (hpq : p ≤ q) (h : Derives (.above q) ts e d) :
    Derives (.above p) ts e d := by
  match p, q with
  | 0, 0 | 1, 1 => exact h
  | 0, 1 => exact h.product
  | 0, _ + 2 => exact h.signed.product
  | 1, _ + 2 => exact h.signed
  | _ + 2, _ + 2 => exact h

/-- An operator joins a phrase of its own level on the left to a tighter one on the right. -/
theorem binary {s : Symbol} {op : Operator} {p : Nat} (hs : s.operator? = some (op, p))
    (hl : Derives (.above (p - 1)) ts l d) (hr : Derives (.above p) us r d') :
    Derives (.above (p - 1)) (ts ++ .symbol s :: us) (.binary op l r) (max d d') := by
  obtain ⟨rfl, ha⟩ | ⟨rfl, hm⟩ := Symbol.operator?_eq_some_iff.mp hs
  · exact .added ha hl hr
  · exact .scaled hm hl hr

end Derives

end TableSteps.Formula
