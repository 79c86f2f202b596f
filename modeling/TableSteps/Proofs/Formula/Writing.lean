import TableSteps.Proofs.Decimal.Numeral
import TableSteps.Formula.Expression

/-! # Lexing what was written

A symbol, a numeral, a bare name and a quoted name are each read back as the one token they stand
for, whatever is written behind them. Only a symbol may be followed by anything at all: the others
end before a character that could not continue them. -/

namespace TableSteps

namespace Text

theorem toNat_of_isAlpha {c : Char} (h : c.isAlpha = true) : 65 ≤ c.toNat ∧ c.toNat ≤ 122 := by
  simp only [Char.isAlpha, Char.isUpper, Char.isLower, Bool.or_eq_true, Bool.and_eq_true,
    decide_eq_true_eq, ge_iff_le] at h
  rcases h with h | h
  · have hlow : 'A'.toNat ≤ c.toNat := UInt32.le_iff_toNat_le.mp h.1
    have hhigh : c.toNat ≤ 'Z'.toNat := UInt32.le_iff_toNat_le.mp h.2
    exact ⟨hlow, Nat.le_trans hhigh (by decide)⟩
  · have hlow : 'a'.toNat ≤ c.toNat := UInt32.le_iff_toNat_le.mp h.1
    have hhigh : c.toNat ≤ 'z'.toNat := UInt32.le_iff_toNat_le.mp h.2
    exact ⟨Nat.le_trans (by decide) hlow, hhigh⟩

/-- Letters and digits beyond ASCII are neither ASCII characters nor blanks. -/
theorem wordRanges_apart : ∀ r ∈ letterRanges ++ digitRanges,
    128 ≤ r.1 ∧ ∀ b ∈ blankRanges, r.2 < b.1 ∨ b.2 < r.1 := by decide +kernel

theorem isLetter_cases {c : Char} (h : isLetter c = true) :
    c.isAlpha = true ∨ ∃ r ∈ letterRanges ++ digitRanges, r.1 ≤ c.toNat ∧ c.toNat ≤ r.2 := by
  simp only [isLetter, Bool.or_eq_true, CharClass.holds_iff] at h
  rcases h with ha | ⟨r, hr, hc⟩
  · exact .inl ha
  · exact .inr ⟨r, List.mem_append_left _ hr, hc⟩

theorem isLetterOrDigit_cases {c : Char} (h : isLetterOrDigit c = true) :
    c.isAlphanum = true ∨ ∃ r ∈ letterRanges ++ digitRanges, r.1 ≤ c.toNat ∧ c.toNat ≤ r.2 := by
  simp only [isLetterOrDigit, Bool.or_eq_true, CharClass.holds_iff] at h
  rcases h with (hl | hd) | ⟨r, hr, hc⟩
  · rcases isLetter_cases hl with ha | hrange
    · exact .inl (by simp [Char.isAlphanum, ha])
    · exact .inr hrange
  · exact .inl (by simp [Char.isAlphanum, hd])
  · exact .inr ⟨r, List.mem_append_right _ hr, hc⟩

/-- In ASCII the letters and digits are those of core. -/
theorem isAlphanum_of_isLetterOrDigit {c : Char} (h : isLetterOrDigit c = true)
    (hc : c.toNat < 128) : c.isAlphanum = true := by
  rcases isLetterOrDigit_cases h with ha | ⟨r, hr, hlow, _⟩
  · exact ha
  · have := (wordRanges_apart r hr).1
    omega

theorem isBlank_of_isLetterOrDigit {c : Char} (h : isLetterOrDigit c = true) :
    isBlank c = false := by
  rw [Bool.eq_false_iff]
  intro hblank
  obtain ⟨b, hb, hlow, hhigh⟩ := CharClass.holds_iff.mp hblank
  rcases isLetterOrDigit_cases h with ha | ⟨r, hr, hc⟩
  · have hword : 48 ≤ c.toNat ∧ c.toNat ≤ 122 := by
      rcases Bool.or_eq_true_iff.mp ha with ha | hd
      · have := toNat_of_isAlpha ha
        omega
      · have : 48 ≤ c.toNat ∧ c.toNat ≤ 57 := Char.isDigit_iff_toNat.mp hd
        omega
    simp only [blankRanges, List.mem_cons, List.not_mem_nil, or_false] at hb
    rcases hb with rfl | rfl | rfl | rfl | rfl | rfl | rfl | rfl | rfl | rfl <;> omega
  · have := (wordRanges_apart r hr).2 b hb
    omega

end Text

namespace Formula

open Text

/-! ## The characters of a word -/

theorem Symbol.char_of_ofChar? {c : Char} {s : Symbol} (h : Symbol.ofChar? c = some s) :
    s.char = c := by
  unfold Symbol.ofChar? at h
  split at h <;> cases h <;> rfl

theorem continuesName_of_startsName {c : Char} (h : startsName c = true) :
    continuesName c = true := by
  simp only [startsName, continuesName, Bool.or_eq_true] at h ⊢
  rcases h with hl | hu
  · exact .inl (.inl (isLetterOrDigit_of_isLetter hl))
  · exact .inl (.inr hu)

theorem continuesName_of_isDigit {c : Char} (h : c.isDigit = true) : continuesName c = true := by
  simp [continuesName, isLetterOrDigit, h]

/-- A character of a word is no blank. -/
theorem isBlank_of_continuesName {c : Char} (h : continuesName c = true) : isBlank c = false := by
  simp only [continuesName, Bool.or_eq_true, decide_eq_true_eq] at h
  rcases h with (hw | rfl) | rfl
  · exact isBlank_of_isLetterOrDigit hw
  · decide
  · decide

/-- An ASCII character outside the words is none of their characters. -/
theorem continuesName_eq_false {c : Char} (hc : c.toNat < 128)
    (h : (c.isAlphanum || c = '_' || c = '.') = false) : continuesName c = false := by
  rw [Bool.eq_false_iff]
  intro hcontinues
  simp only [Bool.or_eq_false_iff] at h
  simp only [continuesName, Bool.or_eq_true] at hcontinues
  rcases hcontinues with (hw | hu) | hp
  · exact absurd (isAlphanum_of_isLetterOrDigit hw hc) (by simp [h.1.1])
  · exact absurd hu (by simp [h.1.2])
  · exact absurd hp (by simp [h.2])

/-- A character of a word is no symbol and no quote. -/
theorem not_punctuation {c : Char} (h : continuesName c = true) :
    Symbol.ofChar? c = none ∧ c ≠ '\'' := by
  constructor
  · cases hs : Symbol.ofChar? c with
    | none => rfl
    | some s =>
      have hfalse : continuesName s.char = false := by
        cases s <;> exact continuesName_eq_false (by decide) (by decide)
      rw [Symbol.char_of_ofChar? hs, h] at hfalse
      cases hfalse
  · rintro rfl
    have hfalse : continuesName '\'' = false := continuesName_eq_false (by decide) (by decide)
    rw [h] at hfalse
    cases hfalse

/-- A character that starts a name starts no number: digits and the point stand before the letters
in ASCII, and the underscore among them. -/
theorem not_isDigit_of_startsName {c : Char} (h : startsName c = true) :
    (c.isDigit || c = '.') = false := by
  rw [Bool.eq_false_iff]
  intro hnumber
  have hlow : c.toNat ≤ 57 := by
    simp only [Bool.or_eq_true, decide_eq_true_eq] at hnumber
    rcases hnumber with hd | rfl
    · exact (Char.isDigit_iff_toNat.mp hd).2
    · decide
  have hhigh : 65 ≤ c.toNat := by
    simp only [startsName, Bool.or_eq_true, decide_eq_true_eq] at h
    rcases h with hl | rfl
    · rcases isLetter_cases hl with ha | ⟨r, hr, hc, _⟩
      · exact (toNat_of_isAlpha ha).1
      · have := (wordRanges_apart r hr).1
        omega
    · decide
  omega

/-! ## One token at a time -/

section Tokens

variable {α : Type} [Quantity α]

/-- The tokens of a list of characters. -/
def tokensOf (cs : List Char) : List (Token α) := (lexemes cs).map Lexeme.token

theorem tokensOf_eq (cs : List Char) :
    tokensOf (α := α) cs =
      match cs.dropWhile isBlank with
      | [] => []
      | c :: rest => (readToken c rest).1 :: tokensOf (readToken (α := α) c rest).2 := by
  cases hd : cs.dropWhile isBlank with
  | nil =>
    have hnone : Lexeme.first? (α := α) cs = none := by rw [Lexeme.first?, hd]
    rw [tokensOf, lexemes_of_first?_eq_none hnone]
    rfl
  | cons c rest =>
    let next := readToken (α := α) c rest
    have hfirst : Lexeme.first? cs = some
        (⟨cs.takeWhile isBlank, (c :: rest).take (rest.length + 1 - next.2.length), next.1⟩,
          next.2) := by
      rw [Lexeme.first?, hd]
    rw [tokensOf, lexemes_of_first? hfirst]
    rfl

@[simp] theorem tokensOf_nil : tokensOf (α := α) [] = [] := by
  rw [tokensOf_eq, List.dropWhile_nil]

/-- Blanks in front of a token do not count. -/
theorem tokensOf_blank {c : Char} {rest : List Char} (h : isBlank c = true) :
    tokensOf (α := α) (c :: rest) = tokensOf rest := by
  rw [tokensOf_eq, tokensOf_eq rest, List.dropWhile_cons_of_pos h]

/-- A character that is no blank starts a token. -/
theorem tokensOf_cons {c : Char} {rest : List Char} (h : isBlank c = false) :
    tokensOf (α := α) (c :: rest) =
      (readToken c rest).1 :: tokensOf (readToken (α := α) c rest).2 := by
  rw [tokensOf_eq, List.dropWhile_cons_of_neg (by simp [h])]

/-! ## The tokens of written pieces -/

/-- What stands behind a word starts neither with a character of a word nor with a quote. -/
def Apart (rest : List Char) : Prop := ∀ c ∈ rest.head?, continuesName c = false ∧ c ≠ '\''

theorem apart_nil : Apart [] := by
  intro c hc
  cases hc

theorem apart_space {rest : List Char} : Apart (' ' :: rest) := by
  intro c hc
  cases hc
  exact ⟨continuesName_eq_false (by decide) (by decide), by decide⟩

theorem apart_closing {rest : List Char} : Apart (')' :: rest) := by
  intro c hc
  cases hc
  exact ⟨continuesName_eq_false (by decide) (by decide), by decide⟩

theorem tokensOf_symbol (s : Symbol) (rest : List Char) :
    tokensOf (α := α) (s.char :: rest) = .symbol s :: tokensOf rest := by
  rw [tokensOf_cons (by cases s <;> decide)]
  simp [readToken, Symbol.ofChar?_char]

/-- Digits are read to the end of a numeral and no further. -/
theorem readDigits_numeral {cs rest : List Char} (h : Numeral cs) (hrest : Apart rest) :
    readDigits (cs ++ rest) = (cs, rest) := by
  have hdigit : ∀ c ∈ rest.head?, c.isDigit = false := by
    intro c hc
    rw [Bool.eq_false_iff]
    intro hd
    have := (hrest c hc).1
    rw [continuesName_of_isDigit hd] at this
    cases this
  cases h with
  | whole hne hds =>
    simp only [readDigits, takeWhile_run hds hdigit, dropWhile_run hds hdigit]
    split
    · have := (hrest '.' rfl).1
      simp [continuesName] at this
    · rfl
  | point hne hds hps =>
    rename_i ds ps
    have hpoint : ∀ c ∈ ('.' :: (ps ++ rest)).head?, c.isDigit = false := by simp
    rw [List.append_assoc, List.cons_append]
    simp only [readDigits, takeWhile_run hds hpoint, dropWhile_run hds hpoint,
      takeWhile_run hps hdigit, dropWhile_run hps hdigit]

theorem tokensOf_numeral {cs rest : List Char} {x : α} (h : Numeral cs)
    (hx : Quantity.ofText? cs = some x) (hrest : Apart rest) :
    tokensOf (cs ++ rest) = .number x :: tokensOf rest := by
  have hdigits := readDigits_numeral h hrest
  obtain ⟨c, ds, rfl, hc⟩ := h.exists_cons
  have hword : continuesName c = true := continuesName_of_isDigit hc
  obtain ⟨hsymbol, hquote⟩ := not_punctuation hword
  rw [List.cons_append] at hdigits ⊢
  rw [tokensOf_cons (isBlank_of_continuesName hword)]
  simp [readToken, hsymbol, hquote, hc, hdigits, hx]

theorem tokensOf_bareName {name : String} {rest : List Char}
    (h : Expression.isBareName name = true) (hrest : Apart rest) :
    tokensOf (α := α) (name.toList ++ rest) = .bareName name :: tokensOf rest := by
  obtain ⟨hstart, hall⟩ := Bool.and_eq_true_iff.mp h
  cases hname : name.toList with
  | nil => simp [hname] at hstart
  | cons c cs =>
    rw [hname] at hstart hall
    have hc : startsName c = true := by simpa using hstart
    have hcs : ∀ b ∈ cs, continuesName b = true := by
      intro b hb
      exact List.all_eq_true.mp hall b (List.mem_cons_of_mem c hb)
    have hend : ∀ b ∈ rest.head?, continuesName b = false := fun b hb => (hrest b hb).1
    have hword : continuesName c = true := continuesName_of_startsName hc
    obtain ⟨hsymbol, hquote⟩ := not_punctuation hword
    have hback : String.ofList (c :: cs) = name := by rw [← hname, String.ofList_toList]
    rw [List.cons_append, tokensOf_cons (isBlank_of_continuesName hword)]
    simp only [readToken, hsymbol, hquote, if_false, not_isDigit_of_startsName hc, hc, if_true,
      Bool.false_eq_true, takeWhile_run hcs hend, dropWhile_run hcs hend, hback]

/-- Doubling the quotes of a name keeps each of them from closing it. -/
theorem readQuoted?_flatMap (cs : List Char) {rest : List Char} (hrest : Apart rest) :
    readQuoted? (cs.flatMap Expression.quoteChar ++ '\'' :: rest) = some (cs, rest) := by
  induction cs with
  | nil =>
    cases rest with
    | nil => rfl
    | cons c rest =>
      have hc := (hrest c rfl).2
      simp [readQuoted?, hc]
  | cons c cs ih =>
    by_cases hc : c = '\''
    · subst hc
      simp [Expression.quoteChar, readQuoted?, ih]
    · simp [Expression.quoteChar, readQuoted?, ih, hc]

theorem tokensOf_quote (name : String) {rest : List Char} (hrest : Apart rest) :
    tokensOf (α := α) ((Expression.quote name).toList ++ rest) =
      .quotedName name :: tokensOf rest := by
  have hquoted := readQuoted?_flatMap name.toList hrest
  simp only [Expression.quote, String.toList_ofList, List.cons_append, List.append_assoc,
    List.nil_append]
  rw [tokensOf_cons (by decide)]
  simp [readToken, Symbol.ofChar?, hquoted]

end Tokens

end Formula
end TableSteps
