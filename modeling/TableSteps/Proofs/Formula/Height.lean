import TableSteps.Proofs.Formula.AsOperations
import TableSteps.Proofs.Formula.Parsing
import TableSteps.Proofs.Formula.Walk
import TableSteps.Proofs.Formula.Writing

/-! # The height of a tree

What walks a tree goes as deep as the tree is high. The parser counts parentheses and signs and
refuses too many of them around one token, so it bounds how often a way from the root to a leaf
turns off to the right of an operator or passes a sign. It does not count operators that stand side
by side, and each of these puts the tree so far to the left of a new root: the steps to the left are
as many as the formula has operators in a row, whatever the nesting is. -/

namespace TableSteps.Formula

namespace Expression

variable {α : Type}

/-- The most steps from the root to one leaf that do not lead to the left of an operator. -/
def detours : Expression α → Nat
  | .number _ => 0
  | .column _ => 0
  | .binary _ left right => max left.detours (right.detours + 1)
  | .negate operand => operand.detours + 1

/-- The steps from the root to the left, up to the first node that is no operator with two sides. -/
def leftward : Expression α → Nat
  | .number _ => 0
  | .column _ => 0
  | .binary _ left _ => left.leftward + 1
  | .negate _ => 0

/-- The most steps to the left in a row, from any node. -/
def longestChain : Expression α → Nat
  | .number _ => 0
  | .column _ => 0
  | .binary _ left right => max (left.leftward + 1) (max left.longestChain right.longestChain)
  | .negate operand => operand.longestChain

theorem leftward_le_longestChain (e : Expression α) : e.leftward ≤ e.longestChain := by
  cases e with
  | number x | column name | negate operand => exact Nat.zero_le _
  | binary op left right => exact Nat.le_max_left _ _

/-- Every way to a leaf is cut by its detours into runs to the left. -/
theorem height_le_leftward (e : Expression α) {c : Nat} (h : e.longestChain ≤ c) :
    e.height ≤ e.leftward + 1 + e.detours * (c + 1) := by
  induction e with
  | number x | column name => simp [height, leftward, detours]
  | binary op left right ihl ihr =>
    simp only [longestChain, Nat.max_le] at h
    obtain ⟨-, hl, hr⟩ := h
    have hleft := ihl hl
    have hright := ihr hr
    have hrun := right.leftward_le_longestChain
    have hdetours : left.detours * (c + 1) ≤ max left.detours (right.detours + 1) * (c + 1) :=
      Nat.mul_le_mul_right _ (Nat.le_max_left _ _)
    have hdetours' : (right.detours + 1) * (c + 1) ≤
        max left.detours (right.detours + 1) * (c + 1) :=
      Nat.mul_le_mul_right _ (Nat.le_max_right _ _)
    rw [Nat.succ_mul] at hdetours'
    simp only [height, leftward, detours]
    omega
  | negate operand ih =>
    have hoperand := ih h
    have hrun := operand.leftward_le_longestChain
    simp only [height, leftward, detours, longestChain, Nat.succ_mul] at h ⊢
    omega

end Expression

/-! ## What nesting bounds -/

section Nesting

variable {α : Type} {phrase : Phrase} {ts : List (Token α)} {e : Expression α} {d : Nat}

/-- The steps to the right of operators that a phrase adds at its own level of nesting. -/
def Phrase.turns : Phrase → Nat
  | .sum => 2
  | .product => 1
  | .signed => 0
  | .primary => 0

theorem Derives.detours_le (h : Derives phrase ts e d) : e.detours ≤ 2 * d + phrase.turns := by
  induction h with
  | number | bareName | quotedName => exact Nat.zero_le _
  | parenthesized _ ih | primary _ ih | signed _ ih | product _ ih =>
    simp only [Phrase.turns] at ih ⊢
    omega
  | negated _ ih =>
    simp only [Phrase.turns, Expression.detours] at ih ⊢
    omega
  | scaled _ _ _ ihl ihr | added _ _ _ ihl ihr =>
    simp only [Phrase.turns, Expression.detours] at ihl ihr ⊢
    omega

theorem Derives.height_le (h : Derives phrase ts e d) : e.height ≤ e.operators + d + 1 := by
  induction h with
  | number | bareName | quotedName => simp [Expression.height]
  | primary _ ih | signed _ ih | product _ ih => exact ih
  | parenthesized _ ih => omega
  | negated _ ih =>
    simp only [Expression.height, Expression.operators]
    omega
  | scaled _ _ _ ihl ihr | added _ _ _ ihl ihr =>
    simp only [Expression.height, Expression.operators]
    omega

end Nesting

/-- The cap on nesting bounds the detours of every tree that is read. So the tree is higher than the
cap allows only by its runs to the left: it has no more than one for each detour and one besides,
and each of its operators adds one to the height at most. Every walk over the tree needs a stack as
deep as the tree is high and no deeper, except that less may do for a value in a row where it
fails. -/
theorem height_of_parse {α : Type} [Quantity α] {text : String} {e : Expression α}
    (h : parse text = .ok e) :
    e.detours ≤ 2 * maxDepth + 2 ∧ e.height ≤ (2 * maxDepth + 3) * (e.longestChain + 1) ∧
      e.height ≤ e.operators + maxDepth + 1 ∧
      ∀ frames, (Walker.names.run? frames e = some e.leafNames ↔ e.height ≤ frames) ∧
        (Walker.writer.run? frames e = some e.toText ↔ e.height ≤ frames) ∧
        ∀ cellOf, (e.height ≤ frames →
            (Walker.evaluator cellOf).run? frames e = some (e.value cellOf)) ∧
          ∀ x, e.value cellOf = .ok x →
            ((Walker.evaluator cellOf).run? frames e = some (.ok x) ↔ e.height ≤ frames) := by
  obtain ⟨d, hd, hder⟩ := derives_of_parse h
  have hdetours : e.detours ≤ 2 * d + 2 := hder.detours_le
  have hheight := hder.height_le
  have hruns := e.height_le_leftward (Nat.le_refl _)
  have hchain := e.leftward_le_longestChain
  refine ⟨by omega, ?_, by omega, fun frames => ⟨?_, ?_, fun cellOf => ⟨fun hframes => ?_, ?_⟩⟩⟩
  · calc e.height ≤ e.longestChain + 1 + e.detours * (e.longestChain + 1) := by omega
      _ = (e.detours + 1) * (e.longestChain + 1) := by rw [Nat.succ_mul, Nat.add_comm]
      _ ≤ (2 * maxDepth + 3) * (e.longestChain + 1) := Nat.mul_le_mul_right _ (by omega)
  · rw [← Walker.run_names]
    exact Walker.run?_eq_some_iff Walker.names_whole trivial
  · rw [← Walker.run_writer]
    exact Walker.run?_eq_some_iff Walker.writer_whole trivial
  · rw [← Walker.run_evaluator]
    exact Walker.run?_of_height_le hframes
  · intro x hx
    rw [← hx, ← Walker.run_evaluator]
    exact Walker.run?_eq_some_iff (Walker.evaluator_whole cellOf)
      ⟨x, (Walker.run_evaluator cellOf e).trans hx⟩

theorem height_of_parse_samples :
    ∃ e : Expression Float, parse "-(a + b * c) - d - e" = .ok e ∧
      e.height = 6 ∧ e.detours = 3 ∧ e.longestChain = 2 ∧ e.operators = 4 ∧
      e.height ≤ (2 * maxDepth + 3) * (e.longestChain + 1) ∧
      Walker.names.run? 6 e = some ["a", "b", "c", "d", "e"] ∧
      Walker.writer.run? 5 e ≠ some e.toText := by
  let e : Expression Float := .binary .subtract
    (.binary .subtract
      (.negate (.binary .add (.column "a") (.binary .multiply (.column "b") (.column "c"))))
      (.column "d"))
    (.column "e")
  have h : parse "-(a + b * c) - d - e" = .ok e := by decide +kernel
  obtain ⟨-, hheight, -, hwalks⟩ := height_of_parse h
  exact ⟨e, h, rfl, rfl, rfl, rfl, hheight, (hwalks 6).1.mpr (by decide),
    mt (hwalks 5).2.1.mp (by decide)⟩

/-! ## What nesting does not bound -/

/-- A column added to itself again and again, without parentheses. -/
def chainText (n : Nat) : String :=
  String.ofList ("a".toList ++ (List.replicate n " + a".toList).flatten)

/-- The tree of such a sum leans to the left. -/
def chainTree {α : Type} : Nat → Expression α
  | 0 => .column "a"
  | n + 1 => .binary .add (chainTree n) (.column "a")

section Chain

variable {α : Type}

theorem height_chainTree (n : Nat) : (chainTree n : Expression α).height = n + 1 := by
  induction n with
  | zero => rfl
  | succ n ih => simp [chainTree, Expression.height, ih]

def chainTokens (n : Nat) : List (Token α) :=
  .bareName "a" :: (List.replicate n [.symbol .plus, .bareName "a"]).flatten

theorem derives_chainTree (n : Nat) :
    Derives .sum (chainTokens n) (chainTree n : Expression α) 0 := by
  have ha : Derives .product [.bareName "a"] (.column "a" : Expression α) 0 :=
    .signed (.primary .bareName)
  induction n with
  | zero => exact .product ha
  | succ n ih =>
    have hlonger : (chainTokens (n + 1) : List (Token α)) =
        chainTokens n ++ .symbol .plus :: [.bareName "a"] := by
      simp [chainTokens, List.replicate_succ']
    rw [hlonger]
    exact .added .plus ih ha

theorem apart_summands (n : Nat) : Apart (List.replicate n " + a".toList).flatten := by
  cases n with
  | zero => exact apart_nil
  | succ n => exact apart_space

variable [Quantity α]

theorem tokensOf_column {n : Nat} :
    tokensOf (α := α) ("a".toList ++ (List.replicate n " + a".toList).flatten) =
      .bareName "a" :: tokensOf (List.replicate n " + a".toList).flatten :=
  tokensOf_bareName (by decide) (apart_summands n)

theorem tokensOf_summands (n : Nat) :
    tokensOf (List.replicate n " + a".toList).flatten =
      (List.replicate n [.symbol .plus, (.bareName "a" : Token α)]).flatten := by
  induction n with
  | zero => exact tokensOf_nil
  | succ n ih =>
    have hblank : Text.isBlank ' ' = true := by decide
    calc tokensOf (List.replicate (n + 1) " + a".toList).flatten
        = tokensOf (' ' :: Symbol.plus.char :: ' ' ::
            ("a".toList ++ (List.replicate n " + a".toList).flatten)) := rfl
      _ = .symbol .plus :: .bareName "a" ::
            tokensOf (List.replicate n " + a".toList).flatten := by
        rw [tokensOf_blank hblank, tokensOf_symbol, tokensOf_blank hblank, tokensOf_column]
      _ = (List.replicate (n + 1) [.symbol .plus, .bareName "a"]).flatten := by
        rw [ih]
        rfl

theorem tokens_chainText (n : Nat) : tokens (chainText n) = (chainTokens n : List (Token α)) := by
  calc tokens (chainText n)
      = tokensOf ("a".toList ++ (List.replicate n " + a".toList).flatten) := by
        rw [tokens, chainText, String.toList_ofList, tokensOf]
    _ = chainTokens n := by rw [tokensOf_column, tokensOf_summands, chainTokens]

theorem parse_chainText (n : Nat) : parse (chainText n) = .ok (chainTree n : Expression α) := by
  refine parse_of_derives (Nat.zero_le _) ?_
  rw [tokens_chainText]
  exact derives_chainTree n

/-- No stack is deep enough for the walks over every formula that is read. -/
theorem exists_parse_run?_eq_none (frames : Nat) :
    ∃ (text : String) (e : Expression α), parse text = .ok e ∧
      Walker.names.run? frames e = none ∧ Walker.writer.run? frames e = none ∧
      ∀ cellOf x, e.value cellOf = .ok x → (Walker.evaluator cellOf).run? frames e = none := by
  have hhigh : frames < (chainTree frames : Expression α).height := by
    rw [height_chainTree]
    exact Nat.lt_succ_self frames
  refine ⟨chainText frames, chainTree frames, parse_chainText frames,
    Walker.run?_of_lt_height Walker.names_whole trivial hhigh,
    Walker.run?_of_lt_height Walker.writer_whole trivial hhigh, fun cellOf x hx => ?_⟩
  exact Walker.run?_of_lt_height (Walker.evaluator_whole cellOf)
    ⟨x, (Walker.run_evaluator cellOf _).trans hx⟩ hhigh

end Chain

/-- Nesting alone bounds no height. -/
theorem height_unbounded :
    ¬ ∃ bound : Nat → Nat, ∀ (text : String) (e : Expression Float),
      parse text = .ok e → e.height ≤ bound maxDepth := by
  rintro ⟨bound, hbound⟩
  have hheight := hbound (chainText (bound maxDepth)) _ (parse_chainText _)
  rw [height_chainTree] at hheight
  omega

end TableSteps.Formula
