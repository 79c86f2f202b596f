import TableSteps.Formula.RowValue

/-! # Walks over a tree

Collecting the columns of a tree, writing it out and finding its value in a row are one recursion:
a node is done once its operands are, and it waits on the stack meanwhile. Here the stack has so
many frames, and a walk that needs one more has no result. The height of the tree is what a walk
needs when it leaves nothing out. -/

namespace TableSteps.Formula

/-- What a walk makes of the nodes of a tree. At an operator it comes with the result of the left
side: it is done then, and leaves out the right side, or it still waits for the right one's. -/
structure Walker (α β : Type) where
  number : α → β
  column : String → β
  negate : β → β
  binary : Operator → β → β ⊕ (β → β)

namespace Walker

variable {α β : Type}

/-- The walk, its stack as deep as it takes. -/
def run (w : Walker α β) : Expression α → β
  | .number x => w.number x
  | .column name => w.column name
  | .binary op left right =>
    match w.binary op (w.run left) with
    | .inl b => b
    | .inr finish => finish (w.run right)
  | .negate operand => w.negate (w.run operand)

/-- The walk on a stack of so many frames, one for each node that is not done. -/
def run? (w : Walker α β) : Nat → Expression α → Option β
  | 0, _ => none
  | _ + 1, .number x => some (w.number x)
  | _ + 1, .column name => some (w.column name)
  | frames + 1, .binary op left right =>
    match w.run? frames left with
    | none => none
    | some a =>
      match w.binary op a with
      | .inl b => some b
      | .inr finish => (w.run? frames right).map finish
  | frames + 1, .negate operand => (w.run? frames operand).map w.negate

/-- Results of this kind come only from walks that left nothing out. -/
structure Whole (w : Walker α β) (kind : β → Prop) : Prop where
  negate : ∀ b, kind (w.negate b) → kind b
  stopped : ∀ op a b, w.binary op a = .inl b → ¬ kind b
  finished : ∀ op a finish b, w.binary op a = .inr finish → kind (finish b) → kind a ∧ kind b

variable {w : Walker α β} {kind : β → Prop} {e : Expression α} {frames : Nat}

/-- No walk goes deeper than the tree is high. -/
theorem run?_of_height_le (h : e.height ≤ frames) : w.run? frames e = some (w.run e) := by
  induction e generalizing frames with
  | number x | column name =>
    obtain ⟨frames, rfl⟩ := Nat.exists_eq_add_of_le' h
    rfl
  | binary op left right ihl ihr =>
    obtain ⟨frames, rfl⟩ := Nat.exists_eq_add_of_le' (Nat.le_trans (Nat.le_add_left 1 _) h)
    obtain ⟨hl, hr⟩ := Nat.max_le.mp (Nat.le_of_succ_le_succ h)
    simp only [run?, run, ihl hl, ihr hr]
    split <;> rfl
  | negate operand ih =>
    obtain ⟨frames, rfl⟩ := Nat.exists_eq_add_of_le' (Nat.le_trans (Nat.le_add_left 1 _) h)
    simp only [run?, run, ih (Nat.le_of_succ_le_succ h), Option.map_some]

/-- A walk that leaves nothing out goes as deep as the tree is high. -/
theorem run?_of_lt_height (hw : w.Whole kind) (he : kind (w.run e)) (h : frames < e.height) :
    w.run? frames e = none := by
  induction e generalizing frames with
  | number x | column name =>
    cases Nat.lt_one_iff.mp h
    rfl
  | binary op left right ihl ihr =>
    cases frames with
    | zero => rfl
    | succ frames =>
      have hside : frames < left.height ∨ frames < right.height := by
        simp only [Expression.height] at h
        omega
      simp only [run] at he
      split at he
      · rename_i b hb
        exact absurd he (hw.stopped _ _ _ hb)
      · rename_i finish hfinish
        obtain ⟨hl, hr⟩ := hw.finished _ _ _ _ hfinish he
        by_cases hleft : frames < left.height
        · simp only [run?, ihl hl hleft]
        · have hright : frames < right.height := hside.resolve_left hleft
          simp only [run?, run?_of_height_le (Nat.not_lt.mp hleft), hfinish, ihr hr hright,
            Option.map_none]
  | negate operand ih =>
    cases frames with
    | zero => rfl
    | succ frames =>
      simp only [run?, ih (hw.negate _ he) (Nat.lt_of_succ_lt_succ h), Option.map_none]

theorem run?_eq_some_iff (hw : w.Whole kind) (he : kind (w.run e)) :
    w.run? frames e = some (w.run e) ↔ e.height ≤ frames := by
  refine ⟨fun h => Nat.not_lt.mp fun hlt => ?_, run?_of_height_le⟩
  rw [run?_of_lt_height hw he hlt] at h
  cases h

/-! ## The three walks -/

/-- Collects the columns at the leaves. -/
def names : Walker α (List String) where
  number _ := []
  column name := [name]
  negate a := a
  binary _ a := .inr fun b => a ++ b

theorem names_whole : (names : Walker α (List String)).Whole fun _ => True where
  negate _ _ := trivial
  stopped _ _ _ h := by cases h
  finished _ _ _ _ _ _ := ⟨trivial, trivial⟩

theorem run_names (e : Expression α) : names.run e = e.leafNames := by
  induction e with
  | number x | column name => rfl
  | binary op left right ihl ihr =>
    rw [Expression.leafNames, ← ihl, ← ihr]
    rfl
  | negate operand ih => exact ih

variable [Quantity α]

/-- Writes the tree out. -/
def writer : Walker α String where
  number := Quantity.toText
  column name := if Expression.isBareName name then name else Expression.quote name
  negate a := "-" ++ a
  binary op a := .inr fun b => "(" ++ a ++ " " ++ op.symbol ++ " " ++ b ++ ")"

theorem writer_whole : (writer : Walker α String).Whole fun _ => True where
  negate _ _ := trivial
  stopped _ _ _ h := by cases h
  finished _ _ _ _ _ _ := ⟨trivial, trivial⟩

theorem run_writer (e : Expression α) : writer.run e = e.toText := by
  induction e with
  | number x | column name => rfl
  | binary op left right ihl ihr =>
    rw [Expression.toText, ← ihl, ← ihr]
    rfl
  | negate operand ih =>
    rw [Expression.toText, ← ih]
    rfl

/-- Finds the value in a row. It stops at the first column that fails. -/
def evaluator (cellOf : String → Cell α) : Walker α (Except (BadCell α) (Option α)) where
  number x := .ok (some x)
  column name := leafValue name (cellOf name)
  negate
    | .error failure => .error failure
    | .ok x => .ok (x.map fun x => -x)
  binary op
    | .error failure => .inl (.error failure)
    | .ok x => .inr fun
      | .error failure => .error failure
      | .ok y => .ok (op.evalOption x y)

theorem evaluator_whole (cellOf : String → Cell α) :
    (evaluator cellOf).Whole fun b => ∃ x, b = .ok x where
  negate b h := by
    cases b with
    | error failure => obtain ⟨_, h⟩ := h; cases h
    | ok x => exact ⟨x, rfl⟩
  stopped op a b h := by
    rintro ⟨x, rfl⟩
    cases a with
    | error failure => cases h
    | ok a => cases h
  finished op a finish b h hb := by
    cases a with
    | error failure => cases h
    | ok a =>
      cases h
      cases b with
      | error failure => obtain ⟨_, hb⟩ := hb; cases hb
      | ok b => exact ⟨⟨a, rfl⟩, ⟨b, rfl⟩⟩

theorem run_evaluator (cellOf : String → Cell α) (e : Expression α) :
    (evaluator cellOf).run e = e.value cellOf := by
  induction e with
  | number x | column name => rfl
  | binary op left right ihl ihr =>
    rw [run, Expression.value, ← ihl, ← ihr]
    cases (evaluator cellOf).run left with
    | error failure => rfl
    | ok x => cases (evaluator cellOf).run right <;> rfl
  | negate operand ih =>
    rw [run, Expression.value, ← ih]
    cases (evaluator cellOf).run operand <;> rfl

end Walker
end TableSteps.Formula
