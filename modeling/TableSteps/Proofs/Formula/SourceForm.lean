import TableSteps.Binary64.Quantity
import TableSteps.Proofs.Formula.Scanning

/-! # All of a formula, and what was written

Call after call the scanner goes through a whole formula: every character is a blank or belongs to a
token, and each token takes at least one. So there are no more tokens than characters, and from then
on the scanner stays at the end.

A token is written as its source form. Tokens written one after another with blanks in between are
found again, each as it was. -/

namespace TableSteps.Formula

open Text

variable {α : Type} [Quantity α]

/-! ## Formulas in pieces -/

/-- The characters of a lexeme. -/
def Lexeme.chars (x : Lexeme α) : List Char := x.blanks ++ x.text

/-- A formula is its lexemes, each of them read from what is left of the formula, and the blanks at
its end. -/
inductive Cut : List Char → List (Lexeme α) → List Char → Prop
  | trailing {blanks : List Char} : (∀ c ∈ blanks, isBlank c = true) → Cut blanks [] blanks
  | lexeme {blanks run rest trailing : List Char} {c : Char} {token : Token α}
    {xs : List (Lexeme α)} :
    (∀ b ∈ blanks, isBlank b = true) → isBlank c = false →
      readToken c (run ++ rest) = (token, rest) → Cut rest xs trailing →
      Cut (blanks ++ c :: (run ++ rest)) (⟨blanks, c :: run, token⟩ :: xs) trailing

/-- What is left behind a token is an end part of what it was read from. -/
theorem exists_run_readToken (c : Char) (rest : List Char) :
    ∃ run, rest = run ++ (readToken (α := α) c rest).2 := by
  have hat : (Scanner.start (String.ofList (c :: rest))).At [] (c :: rest) :=
    ⟨String.toList_ofList, rfl⟩
  obtain ⟨run, hrun, -⟩ := Scanner.reads_token? (α := α) hat.advance_cons
  exact ⟨run, hrun⟩

/-- Behind blanks, the first lexeme is what is read there. -/
theorem Lexeme.first?_append {blanks run rest : List Char} {c : Char} {token : Token α}
    (hblanks : ∀ b ∈ blanks, isBlank b = true) (hc : isBlank c = false)
    (hread : readToken c (run ++ rest) = (token, rest)) :
    Lexeme.first? (blanks ++ c :: (run ++ rest)) = some (⟨blanks, c :: run, token⟩, rest) := by
  have hhead : ∀ b ∈ (c :: (run ++ rest)).head?, isBlank b = false := by simpa using hc
  have hlength : (run ++ rest).length + 1 - rest.length = (c :: run).length := by
    simp only [List.length_append, List.length_cons]
    omega
  simp only [Lexeme.first?, takeWhile_run hblanks hhead, dropWhile_run hblanks hhead, hread, hlength]
  rw [← List.cons_append, List.take_left]

theorem exists_cut (cs : List Char) : ∃ trailing, Cut cs (lexemes (α := α) cs) trailing := by
  induction hlength : cs.length using Nat.strongRecOn generalizing cs with
  | ind length ih =>
  obtain ⟨blanks, tail, rfl, hblanks, htail⟩ := Scanner.exists_run isBlank cs
  cases tail with
  | nil =>
    have hnone : Lexeme.first? (α := α) (blanks ++ []) = none := by
      rw [Lexeme.first?, dropWhile_run hblanks htail]
    rw [lexemes_of_first?_eq_none hnone, List.append_nil]
    exact ⟨blanks, .trailing hblanks⟩
  | cons c behind =>
    have hc : isBlank c = false := htail c rfl
    obtain ⟨run, hrun⟩ := exists_run_readToken (α := α) c behind
    generalize hread : readToken (α := α) c behind = read at hrun
    obtain ⟨token, rest⟩ := read
    subst hrun
    have hfirst := Lexeme.first?_append hblanks hc hread
    obtain ⟨trailing, hcut⟩ := ih _ (hlength ▸ Lexeme.length_first? hfirst) rest rfl
    rw [lexemes_of_first? hfirst]
    exact ⟨trailing, .lexeme hblanks hc hread hcut⟩

namespace Cut

variable {cs trailing : List Char} {xs : List (Lexeme α)}

/-- Blanks and the texts of tokens make up the whole formula. -/
theorem eq_append (h : Cut cs xs trailing) : cs = xs.flatMap Lexeme.chars ++ trailing := by
  induction h with
  | trailing => rfl
  | lexeme _ _ _ _ ih => simp [Lexeme.chars, ← ih]

theorem length_le (h : Cut cs xs trailing) : xs.length ≤ cs.length := by
  induction h with
  | trailing => exact Nat.zero_le _
  | lexeme _ _ _ _ ih =>
    simp only [List.length_cons, List.length_append]
    omega

theorem isBlank_of_mem (h : Cut cs xs trailing) : ∀ c ∈ trailing, isBlank c = true := by
  induction h with
  | trailing hblanks => exact hblanks
  | lexeme _ _ _ _ ih => exact ih

/-- Every lexeme has a token of at least one character, and the blanks end where it starts. -/
theorem text_of_mem (h : Cut cs xs trailing) {x : Lexeme α} (hx : x ∈ xs) :
    (∀ c ∈ x.blanks, isBlank c = true) ∧ ∃ c run, x.text = c :: run ∧ isBlank c = false := by
  induction h with
  | trailing => cases hx
  | lexeme hblanks hc _ _ ih =>
    rcases List.mem_cons.mp hx with rfl | hx
    · exact ⟨hblanks, _, _, rfl, hc⟩
    · exact ih hx

end Cut

/-! ## Call after call -/

namespace Scanner

variable {s : Scanner} {front blanks run rest cs trailing : List Char} {c : Char} {token : Token α}
  {xs : List (Lexeme α)}

theorem next?_trailing (h : s.At front blanks) (hblanks : ∀ c ∈ blanks, isBlank c = true) :
    s.next? (α := α) = some (none, s.advance (String.utf8Len blanks)) := by
  rw [← List.append_nil blanks] at h
  have htake := h.takeWhile?_ofClass hblanks (by simp)
  simp only [next?, htake, h.advance.peek?, bind, Option.bind_some]
  rfl

theorem next?_lexeme (h : s.At front (blanks ++ c :: (run ++ rest)))
    (hblanks : ∀ b ∈ blanks, isBlank b = true) (hc : isBlank c = false)
    (hread : readToken c (run ++ rest) = (token, rest)) :
    s.next? = some (some token, s.advance (String.utf8Len (blanks ++ c :: run))) := by
  have htake := h.takeWhile?_ofClass hblanks (by simpa using hc)
  obtain ⟨run', hrun, htoken⟩ := reads_token? (α := α) h.advance.advance_cons
  rw [hread] at hrun htoken
  obtain rfl := List.append_cancel_right hrun
  have hbytes : String.utf8Len (blanks ++ c :: run) =
      String.utf8Len blanks + c.utf8Size + String.utf8Len run := by
    simp only [String.utf8Len_append, String.utf8Len_cons]
    omega
  rw [hbytes, ← advance_advance, ← advance_advance]
  simp only [next?, htake, h.advance.peek?, bind, Option.bind_some, List.head?_cons, htoken]
  rfl

/-- One call: where the scanner is before and after it, and the token it gives. -/
structure Call (α : Type) where
  before : Scanner
  result : Option (Token α)
  after : Scanner

/-- The call that comes after some others. -/
def call? (s : Scanner) : Nat → Option (Call α)
  | 0 => (s.next? (α := α)).map fun (result, after) => ⟨s, result, after⟩
  | n + 1 => (s.next? (α := α)).bind fun (_, after) => after.call? n

/-- A call on a text gives a token, or none at the end, and steps over some characters, from the
start of one character to that of another. -/
structure Call.Takes (call : Call α) (source : String) (result : Option (Token α))
    (chars : List Char) : Prop where
  result : call.result = result
  before : String.Pos.Raw.IsValid source ⟨call.before.pos⟩
  after : String.Pos.Raw.IsValid source ⟨call.after.pos⟩
  between : textBetween? source call.before.pos call.after.pos = some (String.ofList chars)

omit [Quantity α] in
theorem At.takes (h : s.At front (run ++ rest)) (result : Option (Token α)) :
    (Call.mk s result (s.advance (String.utf8Len run))).Takes s.source result run :=
  ⟨rfl, h.isValid, h.advance.isValid, h.textBetween?⟩

/-- Every call gives the token of the next lexeme and steps over its characters; the call after the
last one steps over the blanks at the end, and those after that over nothing. -/
theorem exists_call (hcut : Cut cs xs trailing) (h : s.At front cs) (n : Nat) :
    ∃ call, s.call? n = some call ∧ call.Takes s.source (xs[n]?.map Lexeme.token)
      (((xs.map Lexeme.chars) ++ [trailing])[n]?.getD []) := by
  induction n generalizing s front cs xs trailing with
  | zero =>
    cases hcut with
    | trailing hblanks =>
      have hnext := next?_trailing (α := α) h hblanks
      rw [← List.append_nil cs] at h
      exact ⟨_, by rw [call?, hnext]; rfl, h.takes none⟩
    | lexeme hblanks hc hread _ =>
      have hnext := next?_lexeme h hblanks hc hread
      rw [← List.cons_append, ← List.append_assoc] at h
      exact ⟨_, by rw [call?, hnext]; rfl, h.takes _⟩
  | succ n ih =>
    cases hcut with
    | trailing hblanks =>
      have hnext := next?_trailing (α := α) h hblanks
      rw [← List.append_nil cs] at h
      have hdone : Cut [] ([] : List (Lexeme α)) [] := .trailing (by simp)
      obtain ⟨call, hcall, htakes⟩ := ih hdone h.advance
      refine ⟨call, by rw [call?, hnext]; exact hcall, ?_⟩
      cases n <;> simpa using htakes
    | lexeme hblanks hc hread hrest =>
      have hnext := next?_lexeme h hblanks hc hread
      rw [← List.cons_append, ← List.append_assoc] at h
      obtain ⟨call, hcall, htakes⟩ := ih hrest h.advance
      exact ⟨call, by rw [call?, hnext]; exact hcall, htakes⟩

/-- All of a text is taken, call after call: the lexemes in order and the blanks at the end. There
are no more lexemes than characters, so the call after as many calls as there are characters is at
the end, and so are all later ones. -/
structure TakesAll (text : String) (xs : List (Lexeme α)) (trailing : List Char) : Prop where
  whole : text.toList = xs.flatMap Lexeme.chars ++ trailing
  blank : ∀ c ∈ trailing, isBlank c = true
  lexeme {x : Lexeme α} : x ∈ xs →
    (∀ c ∈ x.blanks, isBlank c = true) ∧ ∃ c run, x.text = c :: run ∧ isBlank c = false
  length_le : xs.length ≤ text.length
  call (n : Nat) : ∃ call, (start text).call? n = some call ∧
    call.Takes text (xs[n]?.map Lexeme.token) ((xs.map Lexeme.chars ++ [trailing])[n]?.getD [])

theorem exists_takesAll (text : String) :
    ∃ trailing, TakesAll text (lexemes (α := α) text.toList) trailing := by
  obtain ⟨trailing, hcut⟩ := exists_cut (α := α) text.toList
  exact ⟨trailing, hcut.eq_append, hcut.isBlank_of_mem, hcut.text_of_mem,
    String.length_toList ▸ hcut.length_le, exists_call hcut (.start text)⟩

end Scanner

/-! ## Written tokens -/

/-- A token as it is written in a formula. -/
def Token.source : Token α → String
  | .number x => Quantity.toText x
  | .bareName name => name
  | .quotedName name => Expression.quote name
  | .symbol s => s.char.toString
  | .illegal c => c.toString

/-- What stands for itself when it is written: a finite number without a sign, a name that needs no
quotes, any name in quotes and any symbol. Negative zero is written with a sign. -/
def Token.IsWritable : Token Float → Prop
  | .number x => Binary64.isFinite x = true ∧ Binary64.isNegative x = false
  | .bareName name => Expression.isBareName name = true
  | .quotedName _ => True
  | .symbol _ => True
  | .illegal _ => False

instance : DecidablePred Token.IsWritable
  | .number _ => inferInstanceAs (Decidable (_ ∧ _))
  | .bareName _ => inferInstanceAs (Decidable (_ = true))
  | .quotedName _ => .isTrue trivial
  | .symbol _ => .isTrue trivial
  | .illegal _ => .isFalse id

theorem apart_of_isBlank {c : Char} {rest : List Char} (h : isBlank c = true) :
    Apart (c :: rest) := by
  intro b hb
  cases hb
  constructor
  · rw [← Bool.not_eq_true]
    intro hcontinues
    simp [isBlank_of_continuesName hcontinues] at h
  · rintro rfl
    revert h
    decide

theorem tokensOf_blanks {blanks : List Char} (h : ∀ c ∈ blanks, isBlank c = true)
    (rest : List Char) : tokensOf (α := α) (blanks ++ rest) = tokensOf rest := by
  induction blanks with
  | nil => rfl
  | cons c blanks ih =>
    rw [List.cons_append, tokensOf_blank (h c List.mem_cons_self)]
    exact ih fun b hb => h b (List.mem_cons_of_mem c hb)

theorem tokensOf_source {token : Token Float} {rest : List Char} (h : token.IsWritable)
    (hrest : Apart rest) : tokensOf (token.source.toList ++ rest) = token :: tokensOf rest := by
  cases token with
  | number x =>
    obtain ⟨hfinite, hsign⟩ := h
    have hspec := Binary64.toText_spec (decide_eq_true_iff.mp hfinite)
    rw [← hsign, Binary64.ofMagnitude_magnitude] at hspec
    exact tokensOf_numeral hspec.1 hspec.2 hrest
  | bareName name => exact tokensOf_bareName h hrest
  | quotedName name => exact tokensOf_quote name hrest
  | symbol s =>
    rw [Token.source, Char.toString_eq_singleton, String.toList_singleton]
    exact tokensOf_symbol s rest
  | illegal c => exact h.elim

/-- Tokens one after another, each with the blanks behind it. -/
def written : List (Token Float × List Char) → List Char
  | [] => []
  | (token, blanks) :: rest => token.source.toList ++ (blanks ++ written rest)

theorem tokensOf_written {pieces : List (Token Float × List Char)}
    (hpieces : ∀ piece ∈ pieces, piece.1.IsWritable ∧ ∀ c ∈ piece.2, isBlank c = true)
    (hapart : ∀ piece ∈ pieces.dropLast, piece.2 ≠ []) :
    tokensOf (written pieces) = pieces.map Prod.fst := by
  induction pieces with
  | nil => exact tokensOf_nil
  | cons piece rest ih =>
    obtain ⟨⟨hwritable, hblanks⟩, hrest⟩ := List.forall_mem_cons.mp hpieces
    have hbehind : Apart (piece.2 ++ written rest) := by
      cases hgap : piece.2 with
      | nil =>
        -- Only the last piece has no blanks behind it.
        cases rest with
        | nil => exact apart_nil
        | cons next rest => exact absurd hgap (hapart piece (by simp))
      | cons c gap => exact apart_of_isBlank (hblanks c (by simp [hgap]))
    have hapartRest : ∀ piece ∈ rest.dropLast, piece.2 ≠ [] := fun other hother =>
      hapart other (List.mem_of_mem_tail (by cases rest <;> simp_all))
    rw [written, tokensOf_source hwritable hbehind, tokensOf_blanks hblanks, ih hrest hapartRest,
      List.map_cons]

theorem tokens_written {leading : List Char} {pieces : List (Token Float × List Char)}
    (hleading : ∀ c ∈ leading, isBlank c = true)
    (hpieces : ∀ piece ∈ pieces, piece.1.IsWritable ∧ ∀ c ∈ piece.2, isBlank c = true)
    (hapart : ∀ piece ∈ pieces.dropLast, piece.2 ≠ []) :
    tokens (String.ofList (leading ++ written pieces)) = pieces.map Prod.fst := by
  change tokensOf _ = _
  rw [String.toList_ofList, tokensOf_blanks hleading, tokensOf_written hpieces hapart]

/-- Call after call the scanner takes all of any text, and it finds written tokens again. -/
theorem Scanner.takes_all_and_reads_back :
    (∀ text : String, ∃ (xs : List (Lexeme Float)) (trailing : List Char),
        xs.map Lexeme.token = tokens text ∧ TakesAll text xs trailing) ∧
      ∀ (leading : List Char) (pieces : List (Token Float × List Char)),
        (∀ c ∈ leading, isBlank c = true) →
        (∀ piece ∈ pieces, piece.1.IsWritable ∧ ∀ c ∈ piece.2, isBlank c = true) →
        (∀ piece ∈ pieces.dropLast, piece.2 ≠ []) →
        tokens (String.ofList (leading ++ written pieces)) = pieces.map Prod.fst ∧
          ∀ n, ∃ call, (start (String.ofList (leading ++ written pieces))).call? n = some call ∧
            call.result = (pieces.map Prod.fst)[n]? := by
  refine ⟨fun text => ?_, fun leading pieces hleading hpieces hapart => ?_⟩
  · obtain ⟨trailing, hall⟩ := exists_takesAll (α := Float) text
    exact ⟨_, trailing, rfl, hall⟩
  · have htokens := tokens_written hleading hpieces hapart
    obtain ⟨trailing, hall⟩ :=
      exists_takesAll (α := Float) (String.ofList (leading ++ written pieces))
    refine ⟨htokens, fun n => ?_⟩
    obtain ⟨call, hcall, htakes⟩ := hall.call n
    refine ⟨call, hcall, ?_⟩
    rw [htakes.result, ← htokens, tokens, List.getElem?_map]

/-- A number, a name with a quote in it and a name of letters beyond ASCII, with a symbol and blanks
of two kinds in between. -/
theorem Scanner.reads_back_four_tokens :
    let pieces : List (Token Float × List Char) :=
      [(.number 2.5, [' ']), (.quotedName "Owner's Cost", ['\t', ' ']), (.symbol .times, [' ']),
        (.bareName "매출", [])]
    String.ofList ([' '] ++ written pieces) = " 2.5 'Owner''s Cost'\t * 매출" ∧
      ∀ n, ∃ call, (start (String.ofList ([' '] ++ written pieces))).call? n = some call ∧
        call.result = (pieces.map Prod.fst)[n]? := by
  intro pieces
  have hleading : ∀ c ∈ [' '], isBlank c = true := List.forall_mem_singleton.mpr (by decide)
  have hpieces : ∀ piece ∈ pieces, piece.1.IsWritable ∧ ∀ c ∈ piece.2, isBlank c = true := by
    simp only [← List.all_eq_true]
    decide +kernel
  exact ⟨by decide +kernel,
    (takes_all_and_reads_back.2 [' '] pieces hleading hpieces (by decide)).2⟩

end TableSteps.Formula
