import Mathlib.Data.List.TakeWhile
import TableSteps.Binary64.Bits
import TableSteps.Decimal.Layout
import TableSteps.Decimal.Reading
import TableSteps.Proofs.Decimal.ReadBack

/-! # Numerals

The text of a finite double is a numeral: digits with at most one point, a digit in front. What a
numeral writes is read from it, so the text of a double without a sign reads back as that double.
Infinity has the text `inf`, which is no numeral. -/

namespace TableSteps

namespace Text

variable {p : Char → Bool} {run rest : List Char}

/-- A run of characters of a class ends before a character that is none of them. -/
theorem takeWhile_run (hrun : ∀ c ∈ run, p c = true) (hrest : ∀ c ∈ rest.head?, p c = false) :
    (run ++ rest).takeWhile p = run := by
  rw [List.takeWhile_append_of_pos hrun]
  cases rest with
  | nil => simp
  | cons c rest => simp [hrest c rfl]

theorem dropWhile_run (hrun : ∀ c ∈ run, p c = true) (hrest : ∀ c ∈ rest.head?, p c = false) :
    (run ++ rest).dropWhile p = rest := by
  rw [List.dropWhile_append_of_pos hrun]
  cases rest with
  | nil => rfl
  | cons c rest => simp [hrest c rfl]

end Text

/-- Digits, and then perhaps a point and more digits. -/
inductive Numeral : List Char → Prop where
  | whole {ds : List Char} : ds ≠ [] → (∀ c ∈ ds, c.isDigit = true) → Numeral ds
  | point {ds ps : List Char} : ds ≠ [] → (∀ c ∈ ds, c.isDigit = true) →
      (∀ c ∈ ps, c.isDigit = true) → Numeral (ds ++ '.' :: ps)

/-- A numeral starts with a digit. -/
theorem Numeral.exists_cons {cs : List Char} (h : Numeral cs) :
    ∃ c rest, cs = c :: rest ∧ c.isDigit = true := by
  cases h with
  | whole hne hds =>
    obtain ⟨c, rest, rfl⟩ := List.exists_cons_of_ne_nil hne
    exact ⟨c, rest, rfl, hds c List.mem_cons_self⟩
  | point hne hds _ =>
    obtain ⟨c, rest, rfl⟩ := List.exists_cons_of_ne_nil hne
    exact ⟨c, _, rfl, hds c List.mem_cons_self⟩

namespace Decimal

/-! ## Reading a numeral -/

theorem read?_whole {ds : List Char} (hne : ds ≠ []) (hds : ∀ c ∈ ds, c.isDigit = true) :
    read? ds = some ⟨Nat.ofDigitChars 10 ds 0, 0⟩ := by
  have htake : ds.takeWhile Char.isDigit = ds := List.takeWhile_eq_self_iff.mpr hds
  have hdrop : ds.dropWhile Char.isDigit = [] := List.dropWhile_eq_nil_iff.mpr hds
  simp [read?, htake, hdrop, hne, readExponent?]

theorem read?_point {ds ps : List Char} (hne : ds ≠ []) (hds : ∀ c ∈ ds, c.isDigit = true)
    (hps : ∀ c ∈ ps, c.isDigit = true) :
    read? (ds ++ '.' :: ps) = some ⟨Nat.ofDigitChars 10 (ds ++ ps) 0, -ps.length⟩ := by
  have htake : (ds ++ '.' :: ps).takeWhile Char.isDigit = ds :=
    Text.takeWhile_run hds (by simp)
  have hdrop : (ds ++ '.' :: ps).dropWhile Char.isDigit = '.' :: ps :=
    Text.dropWhile_run hds (by simp)
  have htake' : ps.takeWhile Char.isDigit = ps := List.takeWhile_eq_self_iff.mpr hps
  have hdrop' : ps.dropWhile Char.isDigit = [] := List.dropWhile_eq_nil_iff.mpr hps
  simp [read?, htake, hdrop, htake', hdrop', hne, readExponent?]

/-! ## The positional form -/

theorem isDigit_replicate_zero {n : Nat} : ∀ c ∈ List.replicate n '0', c.isDigit = true := by
  intro c hc
  rw [List.eq_of_mem_replicate hc]
  rfl

/-- The positional form is a numeral, and reading it gives a decimal of the same value. -/
theorem positional_spec (d : Decimal) :
    Numeral d.positional ∧ ∃ d', read? d.positional = some d' ∧ d'.magnitude = d.magnitude := by
  have hne : Nat.toDigits 10 d.digits ≠ [] := Nat.toDigits_ne_nil
  have hall : ∀ c ∈ Nat.toDigits 10 d.digits, c.isDigit = true := fun _ hc =>
    Nat.isDigit_of_mem_toDigits (by decide) (by decide) hc
  have hval : Nat.ofDigitChars 10 (Nat.toDigits 10 d.digits) 0 = d.digits :=
    Nat.ofDigitChars_ten_toDigits
  unfold positional
  generalize Nat.toDigits 10 d.digits = digits at hne hall hval ⊢
  simp only
  split
  · -- A whole number: zeros for the exponent stand behind the digits.
    rename_i he
    have hds : ∀ c ∈ digits ++ List.replicate d.exponent.toNat '0', c.isDigit = true := by
      intro c hc
      rcases List.mem_append.mp hc with hc | hc
      · exact hall c hc
      · exact isDigit_replicate_zero c hc
    have hne' : digits ++ List.replicate d.exponent.toNat '0' ≠ [] := by simp [hne]
    refine ⟨.whole hne' hds, _, read?_whole hne' hds, magnitude_congr ?_⟩
    simp only [numerator, denominator, Nat.ofDigitChars_append, hval,
      Nat.ofDigitChars_replicate_zero]
    rw [show (-d.exponent).toNat = 0 by omega]
    simp [tenTo, Nat.mul_comm]
  · rename_i he
    split
    · -- The point stands among the digits.
      rename_i hplaces
      have htake : ∀ c ∈ digits.take (digits.length - (-d.exponent).toNat), c.isDigit = true :=
        fun c hc => hall c (List.mem_of_mem_take hc)
      have hdrop : ∀ c ∈ digits.drop (digits.length - (-d.exponent).toNat), c.isDigit = true :=
        fun c hc => hall c (List.mem_of_mem_drop hc)
      have hne' : digits.take (digits.length - (-d.exponent).toNat) ≠ [] := by
        intro hnil
        have hlength := congrArg List.length hnil
        rw [List.length_take, List.length_nil] at hlength
        omega
      refine ⟨.point hne' htake hdrop, _, read?_point hne' htake hdrop, congrArg magnitude ?_⟩
      rw [List.take_append_drop, hval, List.length_drop]
      congr 1
      omega
    · -- Zeros stand between the point and the digits.
      rename_i hplaces
      have hps : ∀ c ∈ List.replicate ((-d.exponent).toNat - digits.length) '0' ++ digits,
          c.isDigit = true := by
        intro c hc
        rcases List.mem_append.mp hc with hc | hc
        · exact isDigit_replicate_zero c hc
        · exact hall c hc
      have hds : ∀ c ∈ ['0'], c.isDigit = true := by simp
      have hzeros : Nat.ofDigitChars 10
          (['0'] ++ (List.replicate ((-d.exponent).toNat - digits.length) '0' ++ digits)) 0 =
            d.digits := by
        rw [Nat.ofDigitChars_append, Nat.ofDigitChars_append, Nat.ofDigitChars_replicate_zero]
        exact hval
      have hne' : ['0'] ≠ [] := List.cons_ne_nil _ _
      rw [← List.singleton_append]
      refine ⟨.point hne' hds hps, _, read?_point hne' hds hps, congrArg magnitude ?_⟩
      rw [hzeros, List.length_append, List.length_replicate]
      congr 1
      omega

end Decimal

namespace Binary64

theorem toLower_ne_of_isDigit {c : Char} (h : c.isDigit = true) :
    c.toLower ≠ 'i' ∧ c.toLower ≠ 'n' := by
  have hupper : ¬(c.val ≥ 'A'.val ∧ c.val ≤ 'Z'.val) := by
    simp only [Char.isDigit, Bool.and_eq_true, decide_eq_true_eq] at h
    intro hu
    exact absurd (UInt32.le_trans hu.1 h.2) (by decide)
  have hlower : c.toLower = c := by
    unfold Char.toLower
    exact dif_neg hupper
  rw [hlower]
  constructor <;> (rintro rfl; revert h; decide)

/-- A text that starts with no letter of the words is read as digits. -/
theorem readMagnitude?_eq {cs : List Char} (h : ∀ c ∈ cs.head?, c.toLower ≠ 'i' ∧ c.toLower ≠ 'n') :
    readMagnitude? cs = (Decimal.read? cs).map Decimal.magnitude := by
  have hword : ∀ word : List Char, word.head? = some 'i' ∨ word.head? = some 'n' →
      cs.map Char.toLower ≠ word := by
    rintro word hw rfl
    cases cs with
    | nil => simp at hw
    | cons c rest =>
      obtain ⟨hi, hn⟩ := h c rfl
      simp [hi, hn] at hw
  simp only [readMagnitude?]
  rw [if_neg, if_neg (hword _ (.inr (by decide)))]
  rintro (he | he)
  · exact hword _ (.inl (by decide)) he
  · exact hword _ (.inl (by decide)) he

/-- A text without a sign is read as a double without a sign. -/
theorem ofText?_eq {cs : List Char} (h : ∀ c ∈ cs.head?, c ≠ '-' ∧ c ≠ '+') :
    ofText? cs = (readMagnitude? cs).map (ofMagnitude false) := by
  unfold ofText?
  split
  · exact absurd rfl (h _ rfl).1
  · exact absurd rfl (h _ rfl).2
  · rfl

theorem ofText?_numeral {cs : List Char} (h : Numeral cs) :
    ofText? cs = (Decimal.read? cs).map fun d => ofMagnitude false d.magnitude := by
  obtain ⟨c, rest, rfl, hc⟩ := h.exists_cons
  rw [ofText?_eq, readMagnitude?_eq, Option.map_map]
  · rfl
  · intro b hb
    cases hb
    exact toLower_ne_of_isDigit hc
  · intro b hb
    cases hb
    constructor <;> (rintro rfl; revert hc; decide)

/-! ## The text of a double -/

theorem isNaN_ofMagnitude {negative : Bool} {k : Nat} (h : k ≤ limit) :
    isNaN (ofMagnitude negative k) = false := by
  simp [isNaN, magnitude_ofMagnitude h, h]

theorem toText_infinity : toText (ofMagnitude false limit) = "inf" := by
  simp [toText, isNaN_ofMagnitude (Nat.le_refl limit), isNegative_ofMagnitude (Nat.le_refl limit),
    magnitude_ofMagnitude (Nat.le_refl limit)]

/-- The text of a finite double without a sign is a numeral and reads back as that double. -/
theorem toText_spec {k : Nat} (hk : k < limit) :
    Numeral (toText (ofMagnitude false k)).toList ∧
      ofText? (toText (ofMagnitude false k)).toList = some (ofMagnitude false k) := by
  have htext : (toText (ofMagnitude false k)).toList =
      if k = 0 then ['0'] else (Decimal.shortest k).positional := by
    simp [toText, isNaN_ofMagnitude hk.le, isNegative_ofMagnitude hk.le,
      magnitude_ofMagnitude hk.le, hk.ne]
  rw [htext]
  split
  · rename_i hzero
    subst hzero
    exact ⟨.whole (by simp) (by simp), rfl⟩
  · obtain ⟨hnum, d, hread, hd⟩ := Decimal.positional_spec (Decimal.shortest k)
    refine ⟨hnum, ?_⟩
    rw [ofText?_numeral hnum, hread, Option.map_some, hd, Decimal.magnitude_shortest hk]

end Binary64

end TableSteps
