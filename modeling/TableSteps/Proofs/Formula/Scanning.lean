import TableSteps.Proofs.Formula.Scanner

/-! # What the scanner reads

Every offset the scanner comes to is the length of a front part of its text, so it is never stuck.
Behind that front part it takes just the characters that the reading of lists takes, and finds the
same token. -/

namespace TableSteps.Formula

open Text

namespace Scanner

variable {α : Type}

/-! ## Where the scanner is -/

@[simp] theorem source_advance (s : Scanner) (bytes : Nat) :
    (s.advance bytes).source = s.source := rfl

theorem advance_advance (s : Scanner) (m n : Nat) :
    (s.advance m).advance n = s.advance (m + n) := by
  simp [advance, Nat.add_assoc]

/-- The scanner has come to the end of a front part of its text. -/
structure At (s : Scanner) (front rest : List Char) : Prop where
  source : s.source.toList = front ++ rest
  pos : s.pos = String.utf8Len front

namespace At

variable {s : Scanner} {front run rest : List Char}

theorem start (source : String) : (Scanner.start source).At [] source.toList := ⟨rfl, rfl⟩

theorem isValid (h : s.At front rest) : String.Pos.Raw.IsValid s.source ⟨s.pos⟩ := by
  rw [h.pos]
  exact isValid_utf8Len h.source

theorem advance (h : s.At front (run ++ rest)) :
    (s.advance (String.utf8Len run)).At (front ++ run) rest :=
  ⟨h.source.trans (List.append_assoc _ _ _).symm, by simp [Scanner.advance, h.pos]⟩

theorem advance_cons {c : Char} (h : s.At front (c :: rest)) :
    (s.advance c.utf8Size).At (front ++ [c]) rest := by
  have hone : (s.advance (String.utf8Len [c])).At (front ++ [c]) rest := h.advance
  simpa using hone

theorem peek? (h : s.At front rest) : s.peek? = some rest.head? := by
  rw [Scanner.peek?, h.pos, textFrom?_utf8Len h.source, Option.map_some, String.toList_ofList]

theorem takeWhile? {σ : Type} {take? : σ → Char → Option σ} {memory : σ}
    (h : s.At front (run ++ rest))
    (hbytes : runBytes take? memory (run ++ rest) = String.utf8Len run) :
    s.takeWhile? take? memory = some (String.ofList run, s.advance (String.utf8Len run)) := by
  have hsource : (String.ofList (run ++ rest)).toList = [] ++ (run ++ rest) := String.toList_ofList
  have hrun : textBetween? (String.ofList (run ++ rest)) 0 (String.utf8Len run) =
      some (String.ofList run) := textBetween?_utf8Len hsource
  simp only [Scanner.takeWhile?, h.pos, textFrom?_utf8Len h.source, String.toList_ofList, hbytes,
    hrun, Option.bind_eq_bind, Option.bind_some, Option.pure_def]

/-- What has been stepped over can be cut out. -/
theorem textBetween? (h : s.At front (run ++ rest)) :
    Formula.textBetween? s.source s.pos (s.advance (String.utf8Len run)).pos =
      some (String.ofList run) := by
  rw [← textBetween?_utf8Len h.source, String.utf8Len_append, ← h.pos]
  rfl

/-- What has been stepped over can be cut out together with the character in front of it. -/
theorem textBetween?_cons {c : Char} (h : s.At (front ++ [c]) (run ++ rest)) :
    Formula.textBetween? s.source (s.pos - c.utf8Size) (s.advance (String.utf8Len run)).pos =
      some (String.ofList (c :: run)) := by
  have hsource : s.source.toList = front ++ (c :: run ++ rest) := by simpa using h.source
  have hpos : s.pos = String.utf8Len front + c.utf8Size := by simpa using h.pos
  rw [← textBetween?_utf8Len hsource, Scanner.advance, hpos]
  simp [Nat.add_assoc, Nat.add_comm c.utf8Size]

end At

/-! ## Reading a token -/

theorem runBytes_ofClass (p : Char → Bool) (cs : List Char) :
    runBytes (ofClass p) () cs = String.utf8Len (cs.takeWhile p) := by
  induction cs with
  | nil => rfl
  | cons c cs ih =>
    cases hc : p c with
    | true => simp [runBytes, ofClass, hc, ih, Nat.add_comm]
    | false => simp [runBytes, ofClass, hc]

theorem At.takeWhile?_ofClass {s : Scanner} {front run rest : List Char} {p : Char → Bool}
    (h : s.At front (run ++ rest)) (hrun : ∀ c ∈ run, p c = true)
    (hrest : ∀ c ∈ rest.head?, p c = false) :
    s.takeWhile? (ofClass p) () = some (String.ofList run, s.advance (String.utf8Len run)) :=
  h.takeWhile? (by rw [runBytes_ofClass, takeWhile_run hrun hrest])

/-- Any text starts with a run of characters of a class. -/
theorem exists_run (p : Char → Bool) (cs : List Char) : ∃ run rest, cs = run ++ rest ∧
    (∀ c ∈ run, p c = true) ∧ ∀ c ∈ rest.head?, p c = false := by
  refine ⟨cs.takeWhile p, cs.dropWhile p, List.takeWhile_append_dropWhile.symm,
    fun c hc => List.mem_takeWhile_imp hc, fun c hc => ?_⟩
  have hhead := List.head?_dropWhile_not p cs
  rw [Option.mem_def.mp hc] at hhead
  simpa using hhead

/-- The scanner finds a token and has come to what is left behind it. -/
def Reads (result : Option (Token α × Scanner)) (s : Scanner) (cs : List Char)
    (read : Token α × List Char) : Prop :=
  ∃ run, cs = run ++ read.2 ∧ result = some (read.1, s.advance (String.utf8Len run))

/-! ### Quoted names -/

section Quoted

variable {name : String} {cs run rest : List Char}

/-- A quoted name of which a part has been read. -/
def quotedToken (name : String) (cs : List Char) : Token α × List Char :=
  match readQuoted? cs with
  | some (more, rest) => (.quotedName (name ++ String.ofList more), rest)
  | none => (.illegal '\'', [])

theorem readQuoted?_append (hrun : ∀ c ∈ run, c ≠ '\'') :
    readQuoted? (run ++ rest) =
      (readQuoted? rest).map fun (name, rest) => (run ++ name, rest) := by
  induction run with
  | nil => simp
  | cons c run ih =>
    have hc : c ≠ '\'' := hrun c List.mem_cons_self
    simp [readQuoted?, hc, ih fun b hb => hrun b (List.mem_cons_of_mem c hb), Function.comp_def]

theorem quotedToken_unclosed (hrun : ∀ c ∈ run, c ≠ '\'') :
    quotedToken (α := α) name run = (.illegal '\'', []) := by
  have hread : readQuoted? (run ++ []) = _ := readQuoted?_append hrun
  rw [List.append_nil] at hread
  simp [quotedToken, hread, readQuoted?]

theorem quotedToken_closed (hrun : ∀ c ∈ run, c ≠ '\'') (hrest : rest.head? ≠ some '\'') :
    quotedToken (α := α) name (run ++ '\'' :: rest) =
      (.quotedName (name ++ String.ofList run), rest) := by
  have hclose : readQuoted? ('\'' :: rest) = some ([], rest) := by
    cases rest with
    | nil => rfl
    | cons c rest =>
      have hc : c ≠ '\'' := by simpa using hrest
      simp [readQuoted?, hc]
  simp [quotedToken, readQuoted?_append hrun, hclose]

theorem quotedToken_doubled (hrun : ∀ c ∈ run, c ≠ '\'') :
    quotedToken (α := α) name (run ++ '\'' :: '\'' :: rest) =
      quotedToken ((name ++ String.ofList run).push '\'') rest := by
  simp only [quotedToken, readQuoted?_append hrun, readQuoted?]
  cases readQuoted? rest with
  | none => rfl
  | some read =>
    have hname : name ++ String.ofList (run ++ '\'' :: read.1) =
        (name ++ String.ofList run).push '\'' ++ String.ofList read.1 :=
      String.toList_inj.mp (by simp)
    simp only [Option.map_some, hname]

theorem quoted?_closed {token : Token α} {s s' : Scanner}
    (h : s.quotedRound? name = some (.closed token s')) : s.quoted? name = some (token, s') := by
  rw [quoted?]
  split <;> simp_all

theorem quoted?_inside {name' : String} {s s' : Scanner}
    (h : s.quotedRound? (α := α) name = some (.inside name' s')) :
    s.quoted? (α := α) name = s'.quoted? name' := by
  rw [quoted?]
  split <;> simp_all

section Rounds

variable {s : Scanner} {front : List Char}

theorem utf8Size_quote : '\''.utf8Size = 1 := rfl

theorem quotedRound?_end (name : String) (h : s.At front run) (hrun : ∀ c ∈ run, c ≠ '\'') :
    s.quotedRound? (α := α) name =
      some (.closed (.illegal '\'') (s.advance (String.utf8Len run))) := by
  rw [← List.append_nil run] at h
  have htake := h.takeWhile?_ofClass (p := fun c => !(c = '\'')) (by simpa using hrun) (by simp)
  simp [quotedRound?, htake, h.advance.peek?]

theorem quotedRound?_quote (name : String) (h : s.At front (run ++ '\'' :: rest))
    (hrun : ∀ c ∈ run, c ≠ '\'') :
    s.quotedRound? (α := α) name =
      some (if rest.head? = some '\'' then .inside ((name ++ String.ofList run).push '\'')
          (((s.advance (String.utf8Len run)).advance 1).advance 1)
        else .closed (.quotedName (name ++ String.ofList run))
          ((s.advance (String.utf8Len run)).advance 1)) := by
  have htake := h.takeWhile?_ofClass (p := fun c => !(c = '\'')) (by simpa using hrun) (by simp)
  have hbehind : ((s.advance (String.utf8Len run)).advance 1).At (front ++ run ++ ['\'']) rest :=
    h.advance.advance_cons
  simp only [quotedRound?, htake, h.advance.peek?, hbehind.peek?, bind, Option.bind_some,
    List.head?_cons]
  split <;> rfl

theorem reads_quoted? (name : String) (h : s.At front cs) :
    Reads (s.quoted? (α := α) name) s cs (quotedToken name cs) := by
  -- Each round leaves less to read.
  induction hlength : cs.length using Nat.strongRecOn generalizing name cs s front with
  | ind length ih =>
  obtain ⟨run, tail, rfl, hrun, htail⟩ := exists_run (fun c => !(c = '\'')) cs
  replace hrun : ∀ c ∈ run, c ≠ '\'' := by simpa using hrun
  cases tail with
  | nil =>
    rw [List.append_nil] at h ⊢
    rw [quotedToken_unclosed hrun]
    exact ⟨run, (List.append_nil run).symm, quoted?_closed (quotedRound?_end name h hrun)⟩
  | cons c rest =>
    obtain rfl : c = '\'' := by simpa using htail
    have hround := quotedRound?_quote (α := α) name h hrun
    by_cases hrest : rest.head? = some '\''
    · obtain ⟨rest, rfl⟩ := List.head?_eq_some_iff.mp hrest
      rw [if_pos hrest] at hround
      have hinside : (((s.advance (String.utf8Len run)).advance 1).advance 1).At
          (front ++ run ++ ['\''] ++ ['\'']) rest :=
        h.advance.advance_cons.advance_cons
      obtain ⟨more, hmore, hread⟩ := ih rest.length (by simp [← hlength]; omega) _ hinside rfl
      rw [quotedToken_doubled hrun, quoted?_inside hround]
      refine ⟨run ++ '\'' :: '\'' :: more, by simpa using hmore, ?_⟩
      rw [hread, advance_advance, advance_advance, advance_advance, String.utf8Len_append,
        String.utf8Len_cons, String.utf8Len_cons, utf8Size_quote]
      congr 3
      omega
    · rw [if_neg hrest] at hround
      rw [quotedToken_closed hrun hrest]
      refine ⟨run ++ ['\''], by simp, ?_⟩
      rw [quoted?_closed hround, advance_advance, String.utf8Len_append]
      rfl

end Rounds

end Quoted

/-! ### Numbers -/

section Numbers

variable {rest : List Char}

theorem runBytes_point (rest : List Char) :
    runBytes digitsAndPoint true rest = String.utf8Len (rest.takeWhile Char.isDigit) := by
  induction rest with
  | nil => rfl
  | cons c rest ih =>
    cases hc : c.isDigit with
    | true => simp [runBytes, digitsAndPoint, hc, ih, Nat.add_comm]
    | false => simp [runBytes, digitsAndPoint, hc]

theorem readDigits_digit {c : Char} (hc : c.isDigit = true) (rest : List Char) :
    readDigits (c :: rest) = (c :: (readDigits rest).1, (readDigits rest).2) := by
  simp only [readDigits, List.takeWhile_cons, List.dropWhile_cons, hc, if_true]
  split <;> rfl

theorem readDigits_point (rest : List Char) :
    readDigits ('.' :: rest) =
      ('.' :: rest.takeWhile Char.isDigit, rest.dropWhile Char.isDigit) := by
  simp [readDigits]

/-- The scanner takes the digits and the point that are read. -/
theorem readDigits_spec (rest : List Char) :
    rest = (readDigits rest).1 ++ (readDigits rest).2 ∧
      runBytes digitsAndPoint false rest = String.utf8Len (readDigits rest).1 := by
  induction rest with
  | nil => exact ⟨rfl, rfl⟩
  | cons c rest ih =>
    by_cases hpoint : c = '.'
    · subst hpoint
      rw [readDigits_point]
      refine ⟨by simp, ?_⟩
      simp [runBytes, digitsAndPoint, runBytes_point, Nat.add_comm]
    · cases hc : c.isDigit with
      | true =>
        rw [readDigits_digit hc]
        refine ⟨congrArg (c :: ·) ih.1, ?_⟩
        simp [runBytes, digitsAndPoint, hpoint, hc, ih.2, Nat.add_comm]
      | false =>
        simp [readDigits, runBytes, digitsAndPoint, hpoint, hc]

/-- The same behind the character that starts a number. -/
theorem exists_readDigits_cons {c : Char} (hc : (c.isDigit || c = '.') = true) (rest : List Char) :
    ∃ run tail, readDigits (c :: rest) = (c :: run, tail) ∧ rest = run ++ tail ∧
      runBytes digitsAndPoint (c = '.') rest = String.utf8Len run := by
  by_cases hpoint : c = '.'
  · subst hpoint
    exact ⟨_, _, readDigits_point rest, List.takeWhile_append_dropWhile.symm, runBytes_point rest⟩
  · have hdigit : c.isDigit = true := by simpa [hpoint] using hc
    obtain ⟨hrest, hbytes⟩ := readDigits_spec rest
    refine ⟨_, _, readDigits_digit hdigit rest, hrest, ?_⟩
    rwa [decide_eq_false hpoint]

/-- A digit and a point take one byte each, so one byte back is where the number starts. -/
theorem utf8Size_numeric {c : Char} (hc : (c.isDigit || c = '.') = true) : c.utf8Size = 1 := by
  rw [Char.utf8Size_eq_one_iff, UInt32.le_iff_toNat_le]
  simp only [Bool.or_eq_true, decide_eq_true_eq] at hc
  rcases hc with hdigit | rfl
  · exact Nat.le_trans (Char.isDigit_iff_toNat.mp hdigit).2 (by decide)
  · decide

end Numbers

/-! ### Tokens -/

section Tokens

variable {s : Scanner} {front rest : List Char} {c : Char}

theorem reads_bareName? (h : s.At (front ++ [c]) rest) :
    Reads (s.bareName? (α := α) c) s rest
      (.bareName (String.ofList (c :: rest.takeWhile continuesName)),
        rest.dropWhile continuesName) := by
  obtain ⟨run, tail, rfl, hrun, htail⟩ := exists_run continuesName rest
  rw [takeWhile_run hrun htail, dropWhile_run hrun htail]
  refine ⟨run, rfl, ?_⟩
  simp only [bareName?, h.takeWhile?_ofClass hrun htail, source_advance, h.textBetween?_cons, bind,
    Option.bind_some]
  rfl

theorem reads_none (token : Token α) : Reads (some (token, s)) s rest (token, rest) :=
  ⟨[], rfl, rfl⟩

variable [Quantity α]

theorem reads_number? (h : s.At (front ++ [c]) rest) (hc : (c.isDigit || c = '.') = true) :
    Reads (s.number? (α := α) c) s rest
      (match readDigits (c :: rest) with
      | (text, rest) =>
        match Quantity.ofText? text with
        | some x => (.number x, rest)
        | none => (.illegal c, rest)) := by
  obtain ⟨run, tail, hdigits, rfl, hbytes⟩ := exists_readDigits_cons hc rest
  have htext := h.textBetween?_cons
  rw [utf8Size_numeric hc] at htext
  refine ⟨run, ?_, ?_⟩
  · rw [hdigits]
    dsimp only
    split <;> rfl
  · simp only [number?, h.takeWhile? hbytes, source_advance, htext, String.toList_ofList, hdigits,
      bind, Option.bind_some]
    cases (Quantity.ofText? (c :: run) : Option α) <;> rfl

/-- The scanner finds the token that is read, and has come to where the reading stops. -/
theorem reads_token? (h : s.At (front ++ [c]) rest) :
    Reads (s.token? (α := α) c) s rest (readToken c rest) := by
  cases hsymbol : Symbol.ofChar? c with
  | some symbol => simpa only [token?, readToken, hsymbol] using reads_none _
  | none =>
    by_cases hquote : c = '\''
    · have hquoted := reads_quoted? (α := α) "" h
      simp only [token?, readToken, hsymbol, if_pos hquote]
      simp only [quotedToken, String.empty_append] at hquoted
      exact hquote ▸ hquoted
    · by_cases hnumber : (c.isDigit || c = '.') = true
      · simp only [token?, readToken, hsymbol, if_neg hquote, if_pos hnumber]
        exact reads_number? h hnumber
      · by_cases hname : startsName c = true
        · simpa only [token?, readToken, hsymbol, if_neg hquote, if_neg hnumber, if_pos hname] using
            reads_bareName? h
        · simpa only [token?, readToken, hsymbol, if_neg hquote, if_neg hnumber, if_neg hname] using
            reads_none _

end Tokens

end Scanner

end TableSteps.Formula
