import TableSteps.Formula.Token
import TableSteps.Text.CharClass
import TableSteps.Text.Letter

/-! # A formula cut into lexemes

Every character of a formula belongs to one lexeme, or to the blanks at its end: a lexeme is the
blanks in front of a token and the text of the token itself. Cutting never fails; the text after a
quote that is never closed is one illegal token. -/

namespace TableSteps.Formula

open Text

/-- A token with the text it was read from and the blanks in front of it. -/
structure Lexeme (α : Type) where
  blanks : List Char
  text : List Char
  token : Token α

def startsName (c : Char) : Bool := isLetter c || c = '_'

def continuesName (c : Char) : Bool := isLetterOrDigit c || c = '_' || c = '.'

/-- A name up to the quote that closes it, and what follows. A doubled quote stands for one. -/
def readQuoted? : List Char → Option (List Char × List Char)
  | [] => none
  | '\'' :: '\'' :: rest => (readQuoted? rest).map fun (name, rest) => ('\'' :: name, rest)
  | '\'' :: rest => some ([], rest)
  | c :: rest => (readQuoted? rest).map fun (name, rest) => (c :: name, rest)

/-- Digits with at most one point among them, and what follows. -/
def readDigits (cs : List Char) : List Char × List Char :=
  let whole := cs.takeWhile Char.isDigit
  match cs.dropWhile Char.isDigit with
  | '.' :: rest => (whole ++ '.' :: rest.takeWhile Char.isDigit, rest.dropWhile Char.isDigit)
  | rest => (whole, rest)

variable {α : Type} [Quantity α]

/-- The token that starts with a character, and what follows it. -/
def readToken (c : Char) (rest : List Char) : Token α × List Char :=
  match Symbol.ofChar? c with
  | some s => (.symbol s, rest)
  | none =>
    if c = '\'' then
      match readQuoted? rest with
      | some (name, rest) => (.quotedName (String.ofList name), rest)
      | none => (.illegal c, [])
    else if c.isDigit || c = '.' then
      let (text, rest) := readDigits (c :: rest)
      match Quantity.ofText? text with
      | some x => (.number x, rest)
      | none => (.illegal c, rest)
    else if startsName c then
      (.bareName (String.ofList (c :: rest.takeWhile continuesName)), rest.dropWhile continuesName)
    else (.illegal c, rest)

theorem length_readQuoted? {cs name rest : List Char} (h : readQuoted? cs = some (name, rest)) :
    rest.length < cs.length := by
  fun_induction readQuoted? cs generalizing name rest with
  | case1 => cases h
  | case2 r ih =>
    obtain ⟨⟨n, t⟩, hn, ht⟩ := Option.map_eq_some_iff.mp h
    cases ht
    have := ih hn
    simp only [List.length_cons]
    omega
  | case3 r hr => cases h; simp
  | case4 c r h1 h2 ih =>
    obtain ⟨⟨n, t⟩, hn, ht⟩ := Option.map_eq_some_iff.mp h
    cases ht
    have := ih hn
    simp only [List.length_cons]
    omega

theorem length_readDigits {c : Char} {rest : List Char} (h : (c.isDigit || c = '.') = true) :
    (readDigits (c :: rest)).2.length ≤ rest.length := by
  by_cases hd : c.isDigit = true
  · simp only [readDigits, List.dropWhile_cons, hd, if_true]
    split
    · rename_i r hr
      have h1 := (List.dropWhile_sublist (l := rest) Char.isDigit).length_le
      have h2 := (List.dropWhile_sublist (l := r) Char.isDigit).length_le
      rw [hr, List.length_cons] at h1
      show (r.dropWhile Char.isDigit).length ≤ rest.length
      omega
    · exact (List.dropWhile_sublist (l := rest) Char.isDigit).length_le
  · have hc : c = '.' := by simpa [hd] using h
    subst hc
    simp only [readDigits, List.dropWhile_cons, hd, if_false, Bool.false_eq_true]
    exact (List.dropWhile_sublist (l := rest) Char.isDigit).length_le

theorem length_readToken (c : Char) (rest : List Char) :
    (readToken (α := α) c rest).2.length ≤ rest.length := by
  simp only [readToken]
  split
  · exact Nat.le_refl _
  · split
    · split
      · rename_i h
        exact Nat.le_of_lt (length_readQuoted? h)
      · exact Nat.zero_le _
    · split
      · rename_i h
        split <;> exact length_readDigits h
      · split
        · exact (List.dropWhile_sublist (l := rest) continuesName).length_le
        · exact Nat.le_refl _

/-- The first lexeme and what follows it; none when only blanks are left. -/
def Lexeme.first? (cs : List Char) : Option (Lexeme α × List Char) :=
  match cs.dropWhile isBlank with
  | [] => none
  | c :: rest =>
    let next := readToken c rest
    let text := (c :: rest).take (rest.length + 1 - next.2.length)
    some (⟨cs.takeWhile isBlank, text, next.1⟩, next.2)

theorem Lexeme.length_first? {cs rest : List Char} {x : Lexeme α}
    (h : Lexeme.first? cs = some (x, rest)) : rest.length < cs.length := by
  simp only [Lexeme.first?] at h
  split at h
  · cases h
  · rename_i c r hr
    cases h
    have h1 := length_readToken (α := α) c r
    have h2 := (List.dropWhile_sublist (l := cs) isBlank).length_le
    rw [hr, List.length_cons] at h2
    omega

/-- All lexemes of a formula, in order. -/
def lexemes (cs : List Char) : List (Lexeme α) :=
  match _h : Lexeme.first? cs with
  | none => []
  | some (x, rest) => x :: lexemes rest
termination_by cs.length
decreasing_by exact Lexeme.length_first? _h

theorem lexemes_of_first? {cs rest : List Char} {x : Lexeme α}
    (h : Lexeme.first? cs = some (x, rest)) : lexemes cs = x :: lexemes rest := by
  rw [lexemes]
  split
  · rename_i hnone
    cases h.symm.trans hnone
  · rename_i hfirst
    cases h.symm.trans hfirst
    rfl

theorem lexemes_of_first?_eq_none {cs : List Char} (h : Lexeme.first? (α := α) cs = none) :
    lexemes (α := α) cs = [] := by
  rw [lexemes]
  split
  · rfl
  · rename_i hfirst
    cases h.symm.trans hfirst

/-- All tokens of a formula, in order. -/
def tokens (text : String) : List (Token α) := (lexemes text.toList).map Lexeme.token

end TableSteps.Formula
