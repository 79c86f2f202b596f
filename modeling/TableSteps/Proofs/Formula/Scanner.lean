import Mathlib.Data.String.Basic
import TableSteps.Proofs.Formula.Writing

/-! # Scanning by byte offsets

A scanner goes through a formula by the offset of the byte it has come to. It looks at the text from
there on, steps over characters and cuts out what it has stepped over; where an offset falls inside
a character there is no text to look at or to cut out, and the scanner is stuck.

It never is: every offset is the length of a front part of the text, and the tokens it finds one
after another are those of the lexemes. -/

namespace TableSteps.Formula

open Text

/-! ## Texts at byte offsets -/

/-- The place at an offset, unless that falls inside a character or behind the end. -/
def placeAt? (source : String) (offset : Nat) : Option source.Pos :=
  if h : String.Pos.Raw.IsValid source ⟨offset⟩ then some ⟨⟨offset⟩, h⟩ else none

/-- The text from an offset on. -/
def textFrom? (source : String) (start : Nat) : Option String :=
  (placeAt? source start).map fun place => (source.sliceFrom place).copy

/-- The text between two offsets. -/
def textBetween? (source : String) (start stop : Nat) : Option String := do
  let first ← placeAt? source start
  let last ← placeAt? source stop
  if h : first ≤ last then some (source.slice first last h).copy else none

section Offsets

variable {source : String} {front run rest : List Char}

/-- What a front part of a text is long is an offset where a character starts or the text ends. -/
theorem isValid_utf8Len (h : source.toList = front ++ rest) :
    String.Pos.Raw.IsValid source ⟨String.utf8Len front⟩ := by
  rw [String.Pos.Raw.isValid_iff_exists_append]
  refine ⟨String.ofList front, String.ofList rest, ?_, ?_⟩
  · rw [← String.ofList_append, ← h, String.ofList_toList]
  · rw [← String.utf8ByteSize_ofList]
    rfl

theorem exists_placeAt? (h : source.toList = front ++ rest) :
    ∃ place, placeAt? source (String.utf8Len front) = some place ∧
      place.Splits (String.ofList front) (String.ofList rest) := by
  refine ⟨⟨_, isValid_utf8Len h⟩, dif_pos _, ?_, ?_⟩
  · rw [← String.ofList_append, ← h, String.ofList_toList]
  · exact congrArg String.Pos.Raw.mk (String.utf8ByteSize_ofList front).symm

theorem textFrom?_utf8Len (h : source.toList = front ++ rest) :
    textFrom? source (String.utf8Len front) = some (String.ofList rest) := by
  obtain ⟨place, hplace, hsplits⟩ := exists_placeAt? h
  rw [textFrom?, hplace, Option.map_some, hsplits.copy_sliceFrom_eq]

theorem textBetween?_utf8Len (h : source.toList = front ++ (run ++ rest)) :
    textBetween? source (String.utf8Len front) (String.utf8Len (front ++ run)) =
      some (String.ofList run) := by
  obtain ⟨first, hfirst, hfirstSplits⟩ := exists_placeAt? h
  obtain ⟨last, hlast, hlastSplits⟩ := exists_placeAt? ((List.append_assoc _ _ _).symm ▸ h)
  rw [String.ofList_append] at hfirstSplits hlastSplits
  obtain ⟨hle, hcopy⟩ := String.copy_slice_eq_iff_splits.mpr ⟨_, _, hfirstSplits, hlastSplits⟩
  simp only [textBetween?, hfirst, hlast, Option.bind_eq_bind, Option.bind_some, dif_pos hle, hcopy]

end Offsets

/-! ## The scanner -/

/-- A text and the offset that has been reached in it. -/
structure Scanner where
  source : String
  pos : Nat

/-- Bytes up to the first character that is not taken, which may hang on those before it. -/
def runBytes {σ : Type} (take? : σ → Char → Option σ) : σ → List Char → Nat
  | _, [] => 0
  | memory, c :: cs =>
    match take? memory c with
    | some memory => c.utf8Size + runBytes take? memory cs
    | none => 0

/-- Takes the characters of a class, whatever has been taken before. -/
def ofClass (p : Char → Bool) (_ : Unit) (c : Char) : Option Unit := if p c then some () else none

/-- Takes digits, and one point unless there has been one. -/
def digitsAndPoint (seenPoint : Bool) (c : Char) : Option Bool :=
  if c = '.' && !seenPoint then some true else if c.isDigit then some seenPoint else none

namespace Scanner

variable {α : Type}

def start (source : String) : Scanner := ⟨source, 0⟩

def advance (s : Scanner) (bytes : Nat) : Scanner := { s with pos := s.pos + bytes }

/-- The next character; none at the end of the text. -/
def peek? (s : Scanner) : Option (Option Char) :=
  (textFrom? s.source s.pos).map fun rest => rest.toList.head?

/-- Steps over the characters that are taken, and cuts them out. -/
def takeWhile? {σ : Type} (take? : σ → Char → Option σ) (memory : σ) (s : Scanner) :
    Option (String × Scanner) := do
  let rest ← textFrom? s.source s.pos
  let bytes := runBytes take? memory rest.toList
  let run ← textBetween? rest 0 bytes
  return (run, s.advance bytes)

/-- Where a quoted name is after one more of its quotes: at the end, or past a doubled one. -/
inductive Round (α : Type) where
  | closed (token : Token α) (s : Scanner)
  | inside (name : String) (s : Scanner)

/-- Goes on to the next quote and past it; a second quote right behind it is part of the name. -/
def quotedRound? (name : String) (s : Scanner) : Option (Round α) := do
  let (run, s) ← s.takeWhile? (ofClass fun c => !(c = '\'')) ()
  match ← s.peek? with
  | none => return .closed (.illegal '\'') s
  | some _ =>
    let s := s.advance 1
    if (← s.peek?) = some '\'' then return .inside ((name ++ run).push '\'') (s.advance 1)
    else return .closed (.quotedName (name ++ run)) s

/-- No text starts behind the end. -/
theorem le_of_takeWhile? {σ : Type} {take? : σ → Char → Option σ} {memory : σ} {s s' : Scanner}
    {run : String} (h : s.takeWhile? take? memory = some (run, s')) :
    s.pos ≤ s.source.utf8ByteSize ∧ ∃ bytes, s' = s.advance bytes := by
  simp only [takeWhile?, textFrom?, placeAt?, Option.bind_eq_bind, Option.bind_eq_some_iff,
    Option.map_eq_some_iff] at h
  obtain ⟨_, ⟨_, hplace, _⟩, _, _, hresult⟩ := h
  split at hplace
  · rename_i hvalid
    cases hresult
    exact ⟨hvalid.le_rawEndPos, _, rfl⟩
  · cases hplace

theorem pos_quotedRound? {name name' : String} {s s' : Scanner}
    (h : s.quotedRound? (α := α) name = some (.inside name' s')) :
    s'.source.utf8ByteSize + 1 - s'.pos < s.source.utf8ByteSize + 1 - s.pos := by
  simp only [quotedRound?, Option.bind_eq_bind, Option.bind_eq_some_iff] at h
  obtain ⟨⟨run, t⟩, htake, next, hnext, h⟩ := h
  obtain ⟨hle, bytes, rfl⟩ := le_of_takeWhile? htake
  cases next with
  | none => cases h
  | some _ =>
    simp only [Option.bind_eq_some_iff] at h
    obtain ⟨next, hnext, h⟩ := h
    split at h
    · cases h
      simp only [advance]
      omega
    · cases h

/-- A quoted name, all but the quote that opens it. -/
def quoted? (name : String) (s : Scanner) : Option (Token α × Scanner) :=
  match _h : s.quotedRound? name with
  | none => none
  | some (.closed token s) => some (token, s)
  | some (.inside name s) => s.quoted? name
termination_by s.source.utf8ByteSize + 1 - s.pos
decreasing_by exact pos_quotedRound? _h

section Tokens

variable [Quantity α]

/-- A number, all but the character that starts it. -/
def number? (first : Char) (s : Scanner) : Option (Token α × Scanner) := do
  let start := s.pos - 1
  let (_, s) ← s.takeWhile? digitsAndPoint (first = '.')
  let text ← textBetween? s.source start s.pos
  match Quantity.ofText? text.toList with
  | some x => return (.number x, s)
  | none => return (.illegal first, s)

/-- A name without quotes, all but the character that starts it. -/
def bareName? (first : Char) (s : Scanner) : Option (Token α × Scanner) := do
  let start := s.pos - first.utf8Size
  let (_, s) ← s.takeWhile? (ofClass continuesName) ()
  let name ← textBetween? s.source start s.pos
  return (.bareName name, s)

/-- The rest of the token that a character starts. -/
def token? (first : Char) (s : Scanner) : Option (Token α × Scanner) :=
  match Symbol.ofChar? first with
  | some symbol => some (.symbol symbol, s)
  | none =>
    if first = '\'' then s.quoted? ""
    else if first.isDigit || first = '.' then s.number? first
    else if startsName first then s.bareName? first
    else some (.illegal first, s)

/-- The next token; none at the end of the text. -/
def next? (s : Scanner) : Option (Option (Token α) × Scanner) := do
  let (_, s) ← s.takeWhile? (ofClass isBlank) ()
  match ← s.peek? with
  | none => return (none, s)
  | some c =>
    let (token, s) ← (s.advance c.utf8Size).token? c
    return (some token, s)

end Tokens

end Scanner

end TableSteps.Formula
