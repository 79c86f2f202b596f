import TableSteps.Proofs.Formula.Grammar

/-! # The parser reads the grammar

Climbing precedences finds exactly the derivations whose nesting is allowed. One direction follows
the parser's own steps and builds a derivation of the tokens it has taken; the other follows a
derivation and shows that the parser takes its tokens and no others. Both are stated for every
power, every depth and every rest of the tokens, with enough steps left for the rest. -/

namespace TableSteps.Formula

variable {α : Type} [Quantity α]

/-- The power of the operator that comes first, zero if none does. -/
def nextPower : List (Token α) → Nat
  | .symbol s :: _ => (s.operator?.map Prod.snd).getD 0
  | _ => 0

/-! ## The steps of the parser -/

section Steps

variable {fuel depth : Nat} {ts : List (Token α)}

@[simp] theorem readOperand_nil :
    readOperand (α := α) (fuel + 1) depth [] = .error .unexpectedEnd := by
  simp [readOperand]

@[simp] theorem readOperand_number {x : α} :
    readOperand (fuel + 1) depth (.number x :: ts) = .ok (.number x, ts) := by
  simp [readOperand]

@[simp] theorem readOperand_bareName {name : String} :
    readOperand (fuel + 1) depth (.bareName name :: ts) = columnOrCall name ts := by
  simp [readOperand]

@[simp] theorem readOperand_quotedName {name : String} :
    readOperand (fuel + 1) depth (.quotedName name :: ts) = columnOrCall name ts := by
  simp [readOperand]

@[simp] theorem readOperand_illegal {c : Char} :
    readOperand (fuel + 1) depth (.illegal c :: ts) = .error (.illegal c) := by
  simp [readOperand]

theorem readOperand_minus :
    readOperand (fuel + 1) depth (.symbol .minus :: ts) =
      if maxDepth ≤ depth then .error .tooDeep
      else
        match readOperand fuel (depth + 1) ts with
        | .error e => .error e
        | .ok (operand, rest) => .ok (.negate operand, rest) := by
  exact readOperand.eq_def (fuel + 1) depth (.symbol .minus :: ts)

theorem readOperand_opening :
    readOperand (fuel + 1) depth (.symbol .opening :: ts) =
      if maxDepth ≤ depth then .error .tooDeep
      else
        match readExpression fuel (depth + 1) 0 ts with
        | .error e => .error e
        | .ok (inner, rest) => closing inner rest := by
  exact readOperand.eq_def (fuel + 1) depth (.symbol .opening :: ts)

theorem climb_of_nextPower_le {fuel depth power : Nat} {left : Expression α} {ts : List (Token α)}
    (h : nextPower ts ≤ power) : climb fuel depth power left ts = .ok (left, ts) := by
  unfold climb
  split
  · rename_i fuel s rest
    cases hs : s.operator? with
    | none => rfl
    | some o =>
      have ht : o.2 ≤ power := by simpa [nextPower, hs] using h
      simp [ht]
  · rfl

theorem climb_operator {fuel depth power p : Nat} {left : Expression α} {s : Symbol}
    {op : Operator} {rest : List (Token α)} (hs : s.operator? = some (op, p)) (hp : power < p) :
    climb (fuel + 1) depth power left (.symbol s :: rest) =
      match readExpression fuel depth p rest with
      | .error e => .error e
      | .ok (right, rest) => climb fuel depth power (.binary op left right) rest := by
  rw [climb]
  simp only [hs]
  exact if_neg (by omega)

end Steps

omit [Quantity α] in
theorem exists_operator {power : Nat} {ts : List (Token α)} (h : power < nextPower ts) :
    ∃ s op rest, ts = .symbol s :: rest ∧ s.operator? = some (op, nextPower ts) := by
  unfold nextPower at h ⊢
  split at h
  · rename_i s rest
    cases hs : s.operator? with
    | none => simp [hs] at h
    | some o => exact ⟨s, o.1, rest, rfl, by simp [hs]⟩
  · omega

/-! ## What is read has a derivation -/

/-- The tokens that `readOperand` takes are a signed operand. -/
def OperandSound (α : Type) [Quantity α] (fuel : Nat) : Prop :=
  ∀ (depth : Nat) (ts rest : List (Token α)) (e : Expression α),
    readOperand fuel depth ts = .ok (e, rest) → 2 * ts.length ≤ fuel → depth ≤ maxDepth →
    ∃ taken d, ts = taken ++ rest ∧ taken ≠ [] ∧ Derives .signed taken e d ∧ depth + d ≤ maxDepth

/-- The tokens that `readExpression` takes are a phrase of operators above the power, and no such
operator follows. -/
def ExpressionSound (α : Type) [Quantity α] (fuel : Nat) : Prop :=
  ∀ (depth power : Nat) (ts rest : List (Token α)) (e : Expression α),
    readExpression fuel depth power ts = .ok (e, rest) → 2 * ts.length < fuel → depth ≤ maxDepth →
    ∃ taken d, ts = taken ++ rest ∧ taken ≠ [] ∧ Derives (.above power) taken e d ∧
      depth + d ≤ maxDepth ∧ nextPower rest ≤ power

/-- The tokens that `climb` takes continue the phrase on the left, so long as that phrase may stand
to the left of the operator that comes next. -/
def ClimbSound (α : Type) [Quantity α] (fuel : Nat) : Prop :=
  ∀ (depth power : Nat) (left : Expression α) (before ts rest : List (Token α))
    (e : Expression α) (d : Nat),
    climb fuel depth power left ts = .ok (e, rest) → 2 * ts.length ≤ fuel →
    Derives (.above power) before left d →
    (power < nextPower ts → Derives (.above (nextPower ts - 1)) before left d) →
    depth + d ≤ maxDepth →
    ∃ taken d', ts = taken ++ rest ∧ Derives (.above power) (before ++ taken) e d' ∧
      depth + d' ≤ maxDepth ∧ nextPower rest ≤ power

omit [Quantity α] in
theorem columnOrCall_eq_ok {name : String} {ts rest : List (Token α)} {e : Expression α}
    (h : columnOrCall name ts = .ok (e, rest)) : e = .column name ∧ rest = ts := by
  unfold columnOrCall at h
  split at h
  · cases h
  · cases h
    exact ⟨rfl, rfl⟩

theorem closing_eq_ok {inner e : Expression α} {ts rest : List (Token α)}
    (h : closing inner ts = .ok (e, rest)) : e = inner ∧ ts = .symbol .closing :: rest := by
  unfold closing at h
  split at h
  · cases h
    exact ⟨rfl, rfl⟩
  · cases h

theorem operandSound_succ {fuel : Nat} (ihe : ExpressionSound α fuel) (iho : OperandSound α fuel) :
    OperandSound α (fuel + 1) := by
  intro depth ts rest e h hf hd
  match ts with
  | [] => simp at h
  | .number x :: ts =>
    simp only [readOperand_number, Except.ok.injEq, Prod.mk.injEq] at h
    obtain ⟨rfl, rfl⟩ := h
    exact ⟨[.number x], 0, rfl, by simp, .primary .number, hd⟩
  | .bareName name :: ts =>
    rw [readOperand_bareName] at h
    obtain ⟨rfl, rfl⟩ := columnOrCall_eq_ok h
    exact ⟨[.bareName name], 0, rfl, by simp, .primary .bareName, hd⟩
  | .quotedName name :: ts =>
    rw [readOperand_quotedName] at h
    obtain ⟨rfl, rfl⟩ := columnOrCall_eq_ok h
    exact ⟨[.quotedName name], 0, rfl, by simp, .primary .quotedName, hd⟩
  | .illegal c :: ts => simp at h
  | .symbol .minus :: ts =>
    rw [readOperand_minus] at h
    simp only [List.length_cons] at hf
    split at h
    · cases h
    · split at h
      · cases h
      · rename_i operand r ho
        cases h
        obtain ⟨taken, d, rfl, -, hder, hle⟩ :=
          iho (depth + 1) ts _ operand ho (by omega) (by omega)
        exact ⟨.symbol .minus :: taken, d + 1, rfl, by simp, .negated hder, by omega⟩
  | .symbol .opening :: ts =>
    rw [readOperand_opening] at h
    simp only [List.length_cons] at hf
    split at h
    · cases h
    · split at h
      · cases h
      · rename_i inner r hi
        obtain ⟨rfl, rfl⟩ := closing_eq_ok h
        obtain ⟨taken, d, rfl, -, hder, hle, -⟩ :=
          ihe (depth + 1) 0 ts _ _ hi (by omega) (by omega)
        exact ⟨.symbol .opening :: (taken ++ [.symbol .closing]), d + 1, by simp, by simp,
          .primary (.parenthesized hder), by omega⟩
  | .symbol .plus :: ts | .symbol .times :: ts | .symbol .over :: ts | .symbol .closing :: ts =>
    simp [readOperand] at h

theorem climbSound_succ {fuel : Nat} (ihe : ExpressionSound α fuel) (ihc : ClimbSound α fuel) :
    ClimbSound α (fuel + 1) := by
  intro depth power left before ts rest e d h hf hleft hnext hd
  by_cases hp : nextPower ts ≤ power
  · rw [climb_of_nextPower_le hp] at h
    cases h
    exact ⟨[], d, rfl, by simpa using hleft, hd, hp⟩
  · have hlt : power < nextPower ts := by omega
    obtain ⟨s, op, r, hts, hs⟩ := exists_operator hlt
    generalize nextPower ts = p at hs hlt hnext
    subst hts
    rw [climb_operator hs hlt] at h
    split at h
    · cases h
    · rename_i right r' hr
      simp only [List.length_cons] at hf
      obtain ⟨taken, d₁, rfl, hne, hright, hd₁, hstop⟩ :=
        ihe depth p r _ right hr (by omega) (by omega)
      have hpos := List.length_pos_iff.mpr hne
      simp only [List.length_append] at hf
      -- The joined phrase is of the operator's own level, and no tighter operator comes next.
      have hjoin := Derives.binary hs (hnext hlt) hright
      obtain ⟨taken', d₂, rfl, hder, hd₂, hstop'⟩ :=
        ihc depth power _ (before ++ .symbol s :: taken) r' rest e _ h (by omega)
          (hjoin.weaken (by omega)) (fun _ => hjoin.weaken (by omega)) (by omega)
      exact ⟨.symbol s :: taken ++ taken', d₂, by simp, by simpa using hder, hd₂, hstop'⟩

theorem expressionSound_succ {fuel : Nat} (iho : OperandSound α fuel) (ihc : ClimbSound α fuel) :
    ExpressionSound α (fuel + 1) := by
  intro depth power ts rest e h hf hd
  rw [readExpression] at h
  split at h
  · cases h
  · rename_i left r hl
    obtain ⟨taken, d, rfl, hne, hder, hle⟩ := iho depth ts r left hl (by omega) hd
    have hpos := List.length_pos_iff.mpr hne
    simp only [List.length_append] at hf
    have hany : ∀ p, Derives (.above p) taken left d := fun p =>
      Derives.weaken (Nat.le_add_right p 2) hder
    obtain ⟨taken', d', rfl, hder', hd', hstop⟩ :=
      ihc depth power left taken r rest e d h (by omega) (hany _) (fun _ => hany _) hle
    exact ⟨taken ++ taken', d', by simp, by simp [hne], hder', hd', hstop⟩

theorem read_sound (fuel : Nat) :
    ExpressionSound α fuel ∧ ClimbSound α fuel ∧ OperandSound α fuel := by
  induction fuel with
  | zero =>
    refine ⟨?_, ?_, ?_⟩
    · intro depth power ts rest e h
      rw [readExpression] at h
      cases h
    · intro depth power left before ts rest e d h hf hleft _ hd
      have hts : ts = [] := List.eq_nil_of_length_eq_zero (by omega)
      subst hts
      rw [climb_of_nextPower_le (Nat.zero_le _)] at h
      cases h
      exact ⟨[], d, rfl, by simpa using hleft, hd, Nat.zero_le _⟩
    · intro depth ts rest e h
      rw [readOperand] at h
      cases h
  | succ fuel ih =>
    obtain ⟨ihe, ihc, iho⟩ := ih
    exact ⟨expressionSound_succ iho ihc, climbSound_succ ihe ihc, operandSound_succ ihe iho⟩

/-! ## What has a derivation is read -/

/-- A name with these tokens behind it would be a call. -/
def startsCall : List (Token α) → Bool
  | .symbol .opening :: _ => true
  | _ => false

/-- Of the tokens and any rest, `readOperand` takes exactly the tokens. -/
def OperandRead (ts : List (Token α)) (e : Expression α) (d : Nat) : Prop :=
  ∀ (fuel depth : Nat) (rest : List (Token α)),
    2 * (ts ++ rest).length ≤ fuel → depth + d ≤ maxDepth → startsCall rest = false →
    readOperand fuel depth (ts ++ rest) = .ok (e, rest)

/-- Of the tokens and any rest that does not go on with a tighter operator, `readExpression` takes
exactly the tokens before it looks for looser operators. -/
def PhraseRead (p : Nat) (ts : List (Token α)) (e : Expression α) (d : Nat) : Prop :=
  ∀ (fuel depth power : Nat) (rest : List (Token α)),
    2 * (ts ++ rest).length < fuel → depth + d ≤ maxDepth → startsCall rest = false →
    power ≤ p → nextPower rest ≤ p + 1 →
    ∃ fuel', 2 * rest.length ≤ fuel' ∧
      readExpression fuel depth power (ts ++ rest) = climb fuel' depth power e rest

omit [Quantity α] in
theorem columnOrCall_of_not_startsCall {name : String} {ts : List (Token α)}
    (h : startsCall ts = false) : columnOrCall name ts = .ok (.column name, ts) := by
  unfold columnOrCall
  split
  · simp [startsCall] at h
  · rfl

section Reading

variable {ts us : List (Token α)} {e l r : Expression α} {d d' p : Nat}

theorem PhraseRead.mono (h : PhraseRead (p + 1) ts e d) : PhraseRead p ts e d := by
  intro fuel depth power rest hf hd hc hp hn
  exact h fuel depth power rest hf hd hc (by omega) (by omega)

theorem OperandRead.phrase (h : OperandRead ts e d) : PhraseRead p ts e d := by
  intro fuel depth power rest hf hd hc _ _
  match fuel with
  | fuel + 1 =>
    refine ⟨fuel, ?_, ?_⟩
    · simp only [List.length_append] at hf
      omega
    · rw [readExpression, h fuel depth rest (by omega) hd hc]

/-- With no operator behind it that binds tighter than the power, a phrase is all that is read. -/
theorem PhraseRead.readExpression_eq (h : PhraseRead p ts e d) {fuel depth : Nat}
    {rest : List (Token α)} (hf : 2 * (ts ++ rest).length < fuel) (hd : depth + d ≤ maxDepth)
    (hc : startsCall rest = false) (hn : nextPower rest ≤ p) :
    readExpression fuel depth p (ts ++ rest) = .ok (e, rest) := by
  obtain ⟨fuel', -, heq⟩ := h fuel depth p rest hf hd hc (Nat.le_refl p) (by omega)
  rw [heq, climb_of_nextPower_le hn]

theorem PhraseRead.binary {s : Symbol} {op : Operator} (hs : s.operator? = some (op, p + 1))
    (hl : PhraseRead p ts l d) (hr : PhraseRead (p + 1) us r d') :
    PhraseRead p (ts ++ .symbol s :: us) (.binary op l r) (max d d') := by
  intro fuel depth power rest hf hd hc hp hn
  have hcall : startsCall (.symbol s :: (us ++ rest) : List (Token α)) = false := by
    cases s with
    | opening => cases hs
    | _ => rfl
  have hnext : nextPower (.symbol s :: (us ++ rest) : List (Token α)) = p + 1 := by
    simp [nextPower, hs]
  obtain ⟨f, hf', hleft⟩ := hl fuel depth power (.symbol s :: (us ++ rest))
    (by simpa using hf) (by omega) hcall hp (by omega)
  simp only [List.length_cons, List.length_append] at hf'
  match f with
  | f + 1 =>
    refine ⟨f, by omega, ?_⟩
    have hright : readExpression f depth (p + 1) (us ++ rest) = .ok (r, rest) :=
      hr.readExpression_eq (by simp only [List.length_append]; omega) (by omega) hc hn
    rw [List.append_assoc, List.cons_append, hleft, climb_operator hs (by omega), hright]

theorem OperandRead.parenthesized (h : PhraseRead 0 ts e d) :
    OperandRead (.symbol .opening :: (ts ++ [.symbol .closing])) e (d + 1) := by
  intro fuel depth rest hf hd _
  simp only [List.cons_append, List.length_cons, List.append_assoc, List.nil_append,
    List.length_append] at hf ⊢
  match fuel with
  | fuel + 1 =>
    have hinner : readExpression fuel (depth + 1) 0 (ts ++ .symbol .closing :: rest) =
        .ok (e, .symbol .closing :: rest) :=
      h.readExpression_eq (by simp only [List.length_append, List.length_cons]; omega) (by omega)
        rfl (Nat.le_refl 0)
    rw [readOperand_opening, if_neg (by omega), hinner]
    rfl

theorem OperandRead.negated (h : OperandRead ts e d) :
    OperandRead (.symbol .minus :: ts) (.negate e) (d + 1) := by
  intro fuel depth rest hf hd hc
  simp only [List.cons_append, List.length_cons] at hf ⊢
  match fuel with
  | fuel + 1 => rw [readOperand_minus, if_neg (by omega), h fuel _ rest (by omega) (by omega) hc]

end Reading

/-- The parser reads what the grammar derives, level by level. -/
theorem Derives.read {phrase : Phrase} {ts : List (Token α)} {e : Expression α} {d : Nat}
    (h : Derives phrase ts e d) :
    match phrase with
    | .sum => PhraseRead 0 ts e d
    | .product => PhraseRead 1 ts e d
    | .signed | .primary => OperandRead ts e d := by
  induction h with
  | number =>
    intro fuel depth rest hf _ _
    match fuel with
    | fuel + 1 => exact readOperand_number
  | bareName =>
    intro fuel depth rest hf _ hc
    match fuel with
    | fuel + 1 => exact readOperand_bareName.trans (columnOrCall_of_not_startsCall hc)
  | quotedName =>
    intro fuel depth rest hf _ hc
    match fuel with
    | fuel + 1 => exact readOperand_quotedName.trans (columnOrCall_of_not_startsCall hc)
  | parenthesized _ ih => exact OperandRead.parenthesized ih
  | primary _ ih => exact ih
  | negated _ ih => exact OperandRead.negated ih
  | signed _ ih => exact OperandRead.phrase ih
  | scaled hs _ _ ihl ihr =>
    exact PhraseRead.binary (Symbol.operator?_eq_some_iff.mpr (.inr ⟨rfl, hs⟩)) ihl
      (OperandRead.phrase ihr)
  | product _ ih => exact PhraseRead.mono ih
  | added hs _ _ ihl ihr =>
    exact PhraseRead.binary (Symbol.operator?_eq_some_iff.mpr (.inl ⟨rfl, hs⟩)) ihl ihr

/-! ## The parser and the grammar -/

theorem derives_of_parse {text : String} {e : Expression α} (h : parse text = .ok e) :
    ∃ d ≤ maxDepth, Derives .sum (tokens text) e d := by
  unfold parse parseTokens at h
  split at h
  · cases h
  · split at h
    · cases h
    · rename_i e' rest hr
      obtain ⟨taken, d, hts, -, hder, hd, -⟩ := (read_sound _).1 0 0 _ rest e' hr (by omega)
        (Nat.zero_le _)
      cases rest with
      | nil =>
        cases h
        rw [List.append_nil] at hts
        exact ⟨d, by omega, hts ▸ hder⟩
      | cons t rest => cases t <;> cases h

theorem parse_of_derives {text : String} {e : Expression α} {d : Nat} (hd : d ≤ maxDepth)
    (h : Derives .sum (tokens text) e d) : parse text = .ok e := by
  have hread : readExpression (2 * (tokens (α := α) text).length + 2) 0 0 (tokens text ++ []) =
      .ok (e, []) :=
    PhraseRead.readExpression_eq h.read (by simp) (by omega) rfl (Nat.le_refl 0)
  rw [List.append_nil] at hread
  have hne : (tokens (α := α) text).isEmpty = false := by
    cases hts : tokens (α := α) text with
    | nil => rw [hts] at hread; simp [readExpression] at hread
    | cons t ts => rfl
  simp only [parse, parseTokens, hne, hread, Bool.false_eq_true, if_false]
  rfl

/-- A formula has a tree exactly when the grammar derives its tokens with that tree and nests them
no deeper than is allowed; every other formula is refused with an error. -/
theorem parse_iff_derives (text : String) :
    (∀ e : Expression α, parse text = .ok e ↔
      ∃ d ≤ maxDepth, Derives .sum (tokens text) e d) ∧
    ((∃ error, parse (α := α) text = .error error) ↔
      ¬ ∃ e : Expression α, ∃ d ≤ maxDepth, Derives .sum (tokens text) e d) := by
  have hiff : ∀ e : Expression α, parse text = .ok e ↔
      ∃ d ≤ maxDepth, Derives .sum (tokens text) e d := fun e =>
    ⟨derives_of_parse, fun ⟨_, hd, h⟩ => parse_of_derives hd h⟩
  refine ⟨hiff, ?_⟩
  cases h : parse (α := α) text with
  | ok e =>
    have hder := (hiff e).mp h
    constructor
    · rintro ⟨error, herror⟩
      cases herror
    · intro hnone
      exact absurd ⟨e, hder⟩ hnone
  | error error =>
    constructor
    · rintro - ⟨e, hder⟩
      rw [(hiff e).mpr hder] at h
      cases h
    · intro _
      exact ⟨error, rfl⟩

end TableSteps.Formula
