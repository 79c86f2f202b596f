import TableSteps.Binary64.Quantity
import TableSteps.Proofs.Formula.Parsing
import TableSteps.Proofs.Formula.Writing

/-! # Reading back the written form of a tree

The written form of a tree that was read from a formula has one token for every leaf, one for every
sign and three for every operation with two sides. Reading these tokens again gives the tree, with
two exceptions: the infinite number is written as a word and comes back as a column, and the
parentheses that the written form adds count as nesting, so that a tree with too many operators
above one leaf is refused although it was read before. -/

namespace TableSteps.Formula

namespace Expression

variable {α : Type}

/-- The numbers in the order of the leaves. -/
def literals : Expression α → List α
  | .number x => [x]
  | .column _ => []
  | .binary _ left right => left.literals ++ right.literals
  | .negate operand => operand.literals

/-- The most operations that lie on one way from the root to a leaf. -/
def operatorDepth : Expression α → Nat
  | .number _ => 0
  | .column _ => 0
  | .binary _ left right => max left.operatorDepth right.operatorDepth + 1
  | .negate operand => operand.operatorDepth + 1

end Expression

open Binary64

/-! ## Numbers that a formula can hold -/

/-- The double is one of the two infinities. -/
def isInfinite (x : Float) : Bool := magnitude x = limit

/-- The numbers of a formula are read without a sign, so they are zero, positive or infinite. -/
def Unsigned (x : Float) : Prop := ∃ k ≤ limit, x = ofMagnitude false k

theorem magnitude_le_limit (d : Decimal) : d.magnitude ≤ limit := by
  unfold Decimal.magnitude
  split
  · exact Nat.zero_le _
  · split
    · exact Nat.le_refl _
    · split
      · exact Nat.zero_le _
      · exact nearest_le_limit _ _

/-- Digits are read from the character that starts them. -/
theorem head?_readDigits {c : Char} (rest : List Char) (h : (c.isDigit || c = '.') = true) :
    (readDigits (c :: rest)).1.head? = some c := by
  by_cases hd : c.isDigit = true
  · simp only [readDigits, List.takeWhile_cons, List.dropWhile_cons, hd, if_true]
    split <;> rfl
  · have hc : c = '.' := by simpa [hd] using h
    subst hc
    simp [readDigits]

theorem unsigned_of_ofText? {c : Char} {cs : List Char} {x : Float}
    (h : (c.isDigit || c = '.') = true) (hhead : cs.head? = some c) (hx : ofText? cs = some x) :
    Unsigned x := by
  have hsign : ∀ b ∈ cs.head?, b ≠ '-' ∧ b ≠ '+' := by
    intro b hb
    rw [hhead] at hb
    cases hb
    constructor <;> (rintro rfl; revert h; decide)
  have hword : ∀ b ∈ cs.head?, b.toLower ≠ 'i' ∧ b.toLower ≠ 'n' := by
    intro b hb
    rw [hhead] at hb
    cases hb
    simp only [Bool.or_eq_true, decide_eq_true_eq] at h
    rcases h with hd | rfl
    · exact toLower_ne_of_isDigit hd
    · decide
  rw [ofText?_eq hsign, readMagnitude?_eq hword, Option.map_map] at hx
  obtain ⟨d, -, rfl⟩ := Option.map_eq_some_iff.mp hx
  exact ⟨d.magnitude, magnitude_le_limit d, rfl⟩

theorem unsigned_of_readToken {c : Char} {rest : List Char} {x : Float}
    (h : (readToken c rest).1 = .number x) : Unsigned x := by
  unfold readToken at h
  split at h
  · cases h
  · split at h
    · split at h <;> cases h
    · split at h
      · rename_i hnumber
        have hhead := head?_readDigits rest hnumber
        generalize readDigits (c :: rest) = digits at h hhead
        dsimp only at h
        split at h
        · rename_i y hy
          cases h
          exact unsigned_of_ofText? hnumber hhead hy
        · cases h
      · split at h <;> cases h

theorem unsigned_of_mem_tokensOf {cs : List Char} {x : Float} (h : .number x ∈ tokensOf cs) :
    Unsigned x := by
  rw [tokensOf_eq] at h
  split at h
  · cases h
  · rename_i c rest hcs
    have hlength : (readToken (α := Float) c rest).2.length < cs.length := by
      have h1 := length_readToken (α := Float) c rest
      have h2 := (List.dropWhile_sublist (l := cs) Text.isBlank).length_le
      rw [hcs, List.length_cons] at h2
      omega
    rcases List.mem_cons.mp h with h | h
    · exact unsigned_of_readToken h.symm
    · exact unsigned_of_mem_tokensOf h
termination_by cs.length

/-- Every number of a derived tree is one of the derived tokens. -/
theorem Derives.mem_of_mem_literals {α : Type} {phrase : Phrase} {ts : List (Token α)}
    {e : Expression α} {d : Nat} (h : Derives phrase ts e d) :
    ∀ x ∈ e.literals, .number x ∈ ts := by
  induction h with
  | number => simp [Expression.literals]
  | bareName | quotedName => simp [Expression.literals]
  | parenthesized _ ih =>
    intro x hx
    simp [ih x hx]
  | negated _ ih =>
    intro x hx
    exact List.mem_cons_of_mem _ (ih x hx)
  | primary _ ih | signed _ ih | product _ ih => exact ih
  | scaled _ _ _ ihl ihr | added _ _ _ ihl ihr =>
    intro x hx
    rcases List.mem_append.mp hx with hx | hx
    · exact List.mem_append_left _ (ihl x hx)
    · exact List.mem_append_right _ (List.mem_cons_of_mem _ (ihr x hx))

theorem unsigned_of_parse {text : String} {e : Expression Float} (h : parse text = .ok e) :
    ∀ x ∈ e.literals, Unsigned x := by
  obtain ⟨d, -, hder⟩ := derives_of_parse h
  intro x hx
  exact unsigned_of_mem_tokensOf (hder.mem_of_mem_literals x hx)

/-! ## The tokens of a written tree -/

/-- The symbol that writes an operator. -/
def Symbol.ofOperator : Operator → Symbol
  | .add => .plus
  | .subtract => .minus
  | .multiply => .times
  | .divide => .over

theorem Symbol.toList_symbol (op : Operator) :
    op.symbol.toList = [(Symbol.ofOperator op).char] := by
  cases op <;> rfl

namespace Expression

/-- The tokens of the written form. -/
def written : Expression Float → List (Token Float)
  | .number x => [if isInfinite x then .bareName "inf" else .number x]
  | .column name => [if isBareName name then .bareName name else .quotedName name]
  | .binary op left right =>
    .symbol .opening :: (left.written ++ .symbol (Symbol.ofOperator op) :: right.written ++
      [.symbol .closing])
  | .negate operand => .symbol .minus :: operand.written

/-- The tree with a column in place of every infinite number. -/
def reread : Expression Float → Expression Float
  | .number x => if isInfinite x then .column "inf" else .number x
  | .column name => .column name
  | .binary op left right => .binary op left.reread right.reread
  | .negate operand => .negate operand.reread

theorem reread_eq_self_iff (e : Expression Float) :
    e.reread = e ↔ ∀ x ∈ e.literals, isInfinite x = false := by
  induction e with
  | number x => cases h : isInfinite x <;> simp [reread, literals, h]
  | column name => simp [reread, literals]
  | binary op left right ihl ihr =>
    simp only [reread, literals, binary.injEq, true_and, ihl, ihr, List.mem_append, or_imp,
      forall_and]
  | negate operand ih => simp only [reread, literals, negate.injEq, ih]

end Expression

theorem tokensOf_number {x : Float} {rest : List Char} (hx : Unsigned x) (hrest : Apart rest) :
    tokensOf ((toText x).toList ++ rest) = (Expression.number x).written ++ tokensOf rest := by
  obtain ⟨k, hk, rfl⟩ := hx
  have hmagnitude : magnitude (ofMagnitude false k) = k := magnitude_ofMagnitude hk
  rcases Nat.lt_or_eq_of_le hk with hlt | rfl
  · obtain ⟨hnumeral, hread⟩ := toText_spec hlt
    rw [tokensOf_numeral hnumeral hread hrest]
    simp [Expression.written, isInfinite, hmagnitude, hlt.ne]
  · rw [toText_infinity, tokensOf_bareName (by decide) hrest]
    simp [Expression.written, isInfinite, hmagnitude]

theorem tokensOf_toText (e : Expression Float) (rest : List Char)
    (he : ∀ x ∈ e.literals, Unsigned x) (hrest : Apart rest) :
    tokensOf (e.toText.toList ++ rest) = e.written ++ tokensOf rest := by
  induction e generalizing rest with
  | number x => exact tokensOf_number (he x (List.mem_singleton_self x)) hrest
  | column name =>
    cases hname : Expression.isBareName name with
    | true => simp [Expression.toText, Expression.written, hname, tokensOf_bareName hname hrest]
    | false => simp [Expression.toText, Expression.written, hname, tokensOf_quote name hrest]
  | binary op left right ihl ihr =>
    have hblank : Text.isBlank ' ' = true := by decide
    have hl : ∀ x ∈ left.literals, Unsigned x := fun x hx => he x (List.mem_append_left _ hx)
    have hr : ∀ x ∈ right.literals, Unsigned x := fun x hx => he x (List.mem_append_right _ hx)
    have hright := ihr (Symbol.closing.char :: rest) hr apart_closing
    have hleft := ihl (' ' :: (Symbol.ofOperator op).char :: ' ' ::
      (right.toText.toList ++ Symbol.closing.char :: rest)) hl apart_space
    rw [tokensOf_blank hblank, tokensOf_symbol, tokensOf_blank hblank, hright, tokensOf_symbol]
      at hleft
    have htext : (Expression.binary op left right).toText.toList ++ rest =
        Symbol.opening.char :: (left.toText.toList ++ ' ' :: (Symbol.ofOperator op).char :: ' ' ::
          (right.toText.toList ++ Symbol.closing.char :: rest)) := by
      simp [Expression.toText, Symbol.toList_symbol, Symbol.char]
    rw [htext, tokensOf_symbol, hleft]
    simp [Expression.written]
  | negate operand ih =>
    have htext : (Expression.negate operand).toText.toList ++ rest =
        Symbol.minus.char :: (operand.toText.toList ++ rest) := by
      simp [Expression.toText, Symbol.char]
    rw [htext, tokensOf_symbol, ih rest he hrest]
    rfl

theorem tokens_toText {e : Expression Float} (he : ∀ x ∈ e.literals, Unsigned x) :
    tokens e.toText = e.written := by
  have h := tokensOf_toText e [] he apart_nil
  rwa [List.append_nil, tokensOf_nil, List.append_nil] at h

/-! ## Reading the written tokens -/

theorem Symbol.exists_operator?_ofOperator (op : Operator) :
    ∃ p, (Symbol.ofOperator op).operator? = some (op, p + 1) := by
  cases op
  · exact ⟨0, rfl⟩
  · exact ⟨0, rfl⟩
  · exact ⟨1, rfl⟩
  · exact ⟨1, rfl⟩

/-- The written tokens are a signed operand, and every operation nests them once more. -/
theorem derives_written (e : Expression Float) :
    Derives .signed e.written e.reread e.operatorDepth := by
  induction e with
  | number x =>
    unfold Expression.written Expression.reread
    split
    · exact .primary .bareName
    · exact .primary .number
  | column name =>
    unfold Expression.written
    split
    · exact .primary .bareName
    · exact .primary .quotedName
  | binary op left right ihl ihr =>
    obtain ⟨p, hp⟩ := Symbol.exists_operator?_ofOperator op
    have hleft : Derives (.above p) left.written left.reread left.operatorDepth :=
      Derives.weaken (Nat.le_add_right p 2) ihl
    have hright : Derives (.above (p + 1)) right.written right.reread right.operatorDepth :=
      Derives.weaken (Nat.le_succ (p + 1)) ihr
    exact .primary (.parenthesized (Derives.weaken (Nat.zero_le p) (.binary hp hleft hright)))
  | negate operand ih => exact .negated ih

/-- The error comes up at the first leaf that has too many operations above it: what stands in
front of that leaf has been read by then. -/
theorem readOperand_written_tooDeep (e : Expression Float) {fuel depth : Nat}
    {rest : List (Token Float)} (hf : 2 * (e.written ++ rest).length ≤ fuel)
    (hd : depth ≤ maxDepth) (hdeep : maxDepth < depth + e.operatorDepth) :
    readOperand fuel depth (e.written ++ rest) = .error .tooDeep := by
  induction e generalizing fuel depth rest with
  | number x | column name =>
    simp only [Expression.operatorDepth] at hdeep
    omega
  | negate operand ih =>
    simp only [Expression.written, Expression.operatorDepth, List.cons_append,
      List.length_cons] at hf hdeep ⊢
    match fuel with
    | fuel + 1 =>
      rw [readOperand_minus]
      split
      · rfl
      · rw [ih (by omega) (by omega) (by omega)]
  | binary op left right ihl ihr =>
    obtain ⟨p, hp⟩ := Symbol.exists_operator?_ofOperator op
    simp only [Expression.written, Expression.operatorDepth, List.cons_append, List.append_assoc,
      List.length_cons, List.length_append, List.nil_append] at hf hdeep ⊢
    match fuel with
    | fuel + 4 =>
      rw [readOperand_opening]
      split
      · rfl
      · rename_i hdepth
        rw [readExpression]
        by_cases hleft : maxDepth < depth + 1 + left.operatorDepth
        · rw [ihl (by simp; omega) (by omega) hleft]
        · have hread : OperandRead left.written left.reread left.operatorDepth :=
            (derives_written left).read
          have hcall : startsCall (.symbol (Symbol.ofOperator op) ::
              (right.written ++ .symbol .closing :: rest)) = false := by cases op <;> rfl
          rw [hread _ _ _ (by simp; omega) (by omega) hcall]
          dsimp only
          rw [climb_operator hp (by omega), readExpression,
            ihr (by simp; omega) (by omega) (by omega)]

/-- What reading the written form of a tree gives. -/
theorem parse_toText {e : Expression Float} (he : ∀ x ∈ e.literals, Unsigned x) :
    parse e.toText = if e.operatorDepth ≤ maxDepth then .ok e.reread else .error .tooDeep := by
  have hder : Derives .sum (tokens e.toText) e.reread e.operatorDepth := by
    rw [tokens_toText he]
    exact .product (.signed (derives_written e))
  split
  · rename_i hd
    exact parse_of_derives hd hder
  · rename_i hd
    have hread : readOperand (2 * e.written.length + 1) 0 (e.written ++ []) = .error .tooDeep :=
      readOperand_written_tooDeep e (by simp) (Nat.zero_le _) (by omega)
    rw [List.append_nil] at hread
    have hne : e.written.isEmpty = false := by cases e <;> rfl
    simp only [parse, parseTokens, tokens_toText he, hne, Bool.false_eq_true, if_false]
    rw [readExpression, hread]

/-- A tree that was read from a formula is read again from its own written form exactly when it
holds no infinite number and no leaf lies under more operations than nesting allows. -/
theorem parse_toText_eq_ok_iff {text : String} {e : Expression Float} (h : parse text = .ok e) :
    parse e.toText = .ok e ↔
      (∀ x ∈ e.literals, isInfinite x = false) ∧ e.operatorDepth ≤ maxDepth := by
  rw [parse_toText (unsigned_of_parse h), ← Expression.reread_eq_self_iff]
  split
  · rename_i hd
    simp [hd]
  · rename_i hd
    simp [hd]

/-- A quoted name and a sign come back, a number too large for a double does not. -/
theorem parse_toText_eq_ok_iff_samples :
    (∃ e : Expression Float, parse "-'it''s' * (b + 2)" = .ok e ∧
      e.toText = "(-'it''s' * (b + 2))" ∧ parse e.toText = .ok e) ∧
    ∃ e : Expression Float, parse (String.ofList (List.replicate 310 '9')) = .ok e ∧
      e.toText = "inf" ∧ parse e.toText ≠ .ok e := by
  constructor
  · have h : parse "-'it''s' * (b + 2)" = .ok (.binary .multiply (.negate (.column "it's"))
        (.binary .add (.column "b") (.number (ofInt 2)))) := by decide +kernel
    exact ⟨_, h, by decide +kernel, (parse_toText_eq_ok_iff h).mpr (by decide +kernel)⟩
  · have h : parse (String.ofList (List.replicate 310 '9')) =
        .ok (.number (ofMagnitude false limit)) := by
      rw [parse, tokens, String.toList_ofList]
      decide +kernel
    exact ⟨_, h, by decide +kernel, mt (parse_toText_eq_ok_iff h).mp (by decide +kernel)⟩

end TableSteps.Formula
