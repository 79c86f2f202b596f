import TableSteps.Proofs.Binary64.Value
import TableSteps.Proofs.ListPairs

/-! # Equal keys

Two rows have equal keys exactly when the cells that the keys stand for have the same values, one by
one: cells of one type, with the same content, or with numbers that are one number or none.

The numbers are patterns here, so that rows may hold the zero of either sign and whatever is no
number. Rows of doubles have the keys of their patterns. -/

namespace TableSteps

open Binary64

namespace Cell

/-- Two cells that a key does not tell apart. -/
inductive SameValue : Cell Pattern → Cell Pattern → Prop
  | empty : SameValue .empty .empty
  | boolean (b : Bool) : SameValue (.boolean b) (.boolean b)
  | text (s : String) : SameValue (.text s) (.text s)
  | number {p q : Pattern} : p.SameNumber q → SameValue (.number p) (.number q)
  | notNumber {p q : Pattern} :
    limit < below p.bits → limit < below q.bits → SameValue (.number p) (.number q)

/-- The cell with the double that a pattern makes. -/
def ofPattern : Cell Pattern → Cell Float
  | .empty => .empty
  | .boolean b => .boolean b
  | .number p => .number (Float.ofBits p.bits)
  | .text s => .text s

variable {c d : Cell Pattern}

theorem key_ofPattern (c : Cell Pattern) : c.ofPattern.key = c.key := by
  cases c with
  | empty | boolean | text => rfl
  | number p => exact congrArg CellKey.number (canonicalBits_ofBits p.bits)

theorem sameValue_number_iff {p q : Pattern} :
    (number p).SameValue (number q) ↔ canonicalPattern p.bits = canonicalPattern q.bits := by
  rw [Pattern.canonicalPattern_eq_iff_sameNumber]
  constructor
  · intro h
    cases h with
    | number h => exact .inl h
    | notNumber hp hq => exact .inr ⟨hp, hq⟩
  · intro h
    rcases h with h | ⟨hp, hq⟩
    · exact .number h
    · exact .notNumber hp hq

theorem key_eq_key_iff : c.key = d.key ↔ c.SameValue d := by
  constructor
  · intro h
    cases c <;> cases d <;> simp only [key, reduceCtorEq, CellKey.boolean.injEq,
      CellKey.number.injEq, CellKey.text.injEq] at h
    · exact .empty
    · exact h ▸ .boolean _
    · exact sameValue_number_iff.mpr h
    · exact h ▸ .text _
  · intro h
    cases h with
    | empty | boolean | text => rfl
    | number h => exact congrArg CellKey.number (sameValue_number_iff.mp (.number h))
    | notNumber hp hq =>
      exact congrArg CellKey.number (sameValue_number_iff.mp (.notNumber hp hq))

end Cell

namespace RowKey

theorem ofRow_eq_map {α : Type} [Keyed α] (row : List (Cell α))
    (positions : List (Fin row.length)) :
    ofRow row (positions.map Fin.val) = ⟨(positions.map row.get).map Cell.key⟩ := by
  have hcell (i : Fin row.length) : cellAt row i = row.get i := by
    simp [cellAt, List.getD_eq_getElem?_getD]
  simp only [ofRow, List.map_map, Function.comp_def, hcell]

/-- The key of a row of patterns is the one that the doubles they make have. -/
theorem ofRow_map_ofPattern (row : List (Cell Pattern)) (positions : List Nat) :
    ofRow (row.map Cell.ofPattern) positions = ofRow row positions := by
  refine congrArg RowKey.mk (List.map_congr_left fun p _ => ?_)
  have hcell : cellAt (row.map Cell.ofPattern) p = (cellAt row p).ofPattern :=
    List.getD_map row .empty Cell.ofPattern
  rw [hcell, Cell.key_ofPattern]

/-- Keys of two rows are equal exactly when the cells at the positions have the same values, and the
cells under a key have the values of the cells it was made from. So any two zeros go together, and
any two patterns that are no number; all other patterns are apart. The key of a row of doubles is
that of its patterns, and equal numbers are those that the doubles' own equality holds for. -/
theorem ofRow_eq_ofRow_iff (row other : List (Cell Pattern)) (positions : List (Fin row.length))
    (places : List (Fin other.length)) :
    (ofRow row (positions.map Fin.val) = ofRow other (places.map Fin.val) ↔
        List.Forall₂ Cell.SameValue (positions.map row.get) (places.map other.get)) ∧
      List.Forall₂ Cell.SameValue (ofRow row (positions.map Fin.val)).toCells
        (positions.map row.get) ∧
      (∀ p q : Pattern, (Cell.number p).SameValue (.number q) ↔
        p = q ∨ (below p.bits = 0 ∧ below q.bits = 0) ∨
          (limit < below p.bits ∧ limit < below q.bits)) ∧
      ofRow (row.map Cell.ofPattern) (positions.map Fin.val) =
        ofRow row (positions.map Fin.val) ∧
      ∀ x y : Float, eqv x y = true ↔ Pattern.SameNumber ⟨x.toBits⟩ ⟨y.toBits⟩ := by
  refine ⟨?_, ?_, fun p q => ?_, ofRow_map_ofPattern row _, fun _ _ => eqv_iff_sameNumber⟩
  · rw [ofRow_eq_map, ofRow_eq_map, RowKey.mk.injEq, map_eq_map_iff_forall₂]
    simp only [Cell.key_eq_key_iff]
  · rw [ofRow_eq_map, toCells, List.map_map, List.forall₂_map_left_iff, List.forall₂_same]
    exact fun c _ => Cell.key_eq_key_iff.mp (Cell.key_cell_key c)
  · have hbits : p = q ↔ p.bits = q.bits := by
      cases p
      cases q
      rw [Pattern.mk.injEq]
    rw [Cell.sameValue_number_iff, canonicalPattern_eq_iff, hbits]

/-- Zeros of both signs, what is no number with another sign and other bits, and a text under one
key, from rows of different widths. -/
example :
    ofRow [.number (⟨0⟩ : Pattern), .number ⟨0x7FF8000000000000⟩, .text "a"] [1, 2, 0] =
      ofRow [.number ⟨0xFFF0000000000001⟩, .text "a", .boolean true, .number ⟨0x8000000000000000⟩]
        [0, 1, 3] := by
  decide +kernel

end RowKey
end TableSteps
