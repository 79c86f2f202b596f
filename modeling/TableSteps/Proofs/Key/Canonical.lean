import TableSteps.Proofs.Key.Equality
import TableSteps.Proofs.Wire.Record
import TableSteps.Wire.Key

/-! # Canonical keys

A key is rebuilt by taking the key of its own cells, with patterns or with doubles for numbers: both
give one key. A key made from a row has canonical codes and is its own rebuilt form, and among such
keys equal cells mean equal keys. Decoding reads a code as any 64 bits, so a decoded key is its own
rebuilt form exactly when the codes it was given are canonical. -/

namespace TableSteps

open Binary64

namespace RowKey

/-- The key of the cells under a key. -/
def rebuild (α : Type) [Keyed α] (k : RowKey (Keyed.Key α)) : RowKey (Keyed.Key α) :=
  let cells : List (Cell α) := k.toCells
  ofRow cells (List.range cells.length)

/-- Every number of the key has the code that its equals have. -/
def IsCanonical (k : RowKey UInt64) : Prop :=
  ∀ code, .number code ∈ k.values → canonicalPattern code = code

section Rebuilding

variable {α : Type} [Keyed α]

theorem ofRow_range (cells : List (Cell α)) :
    ofRow cells (List.range cells.length) = ⟨cells.map Cell.key⟩ := by
  rw [ofRow, RowKey.mk.injEq]
  apply List.ext_getElem
  · simp
  · intro i hi hi'
    have hlt : i < cells.length := by simpa using hi
    simp [cellAt, List.getD_eq_getElem?_getD, hlt]

theorem rebuild_eq_map (k : RowKey (Keyed.Key α)) :
    k.rebuild α = ⟨k.values.map fun v => (CellKey.cell (α := α) v).key⟩ := by
  rw [rebuild, ofRow_range, toCells, List.map_map]
  rfl

theorem rebuild_ofRow [LawfulKeyed α] (row : List (Cell α)) (positions : List Nat) :
    (ofRow row positions).rebuild α = ofRow row positions := by
  rw [rebuild_eq_map, ofRow, List.map_map]
  simp only [Function.comp_def, Cell.key_cell_key]

end Rebuilding

variable {k l : RowKey UInt64}

/-- The cells of a key may hold patterns or the doubles that these make. -/
theorem rebuild_float (k : RowKey UInt64) : k.rebuild Float = k.rebuild Pattern := by
  rw [rebuild_eq_map, rebuild_eq_map]
  refine congrArg RowKey.mk (List.map_congr_left fun v _ => ?_)
  cases v with
  | empty | boolean | text => rfl
  | number code => exact congrArg CellKey.number (canonicalBits_ofBits code)

theorem key_cell_eq_self_iff {v : CellKey UInt64} :
    (CellKey.cell (α := Pattern) v).key = v ↔
      ∀ code, v = .number code → canonicalPattern code = code := by
  cases v with
  | empty | boolean | text => simp [CellKey.cell, Cell.key]
  | number code =>
    have hkey : (CellKey.cell (α := Pattern) (.number code)).key =
        .number (canonicalPattern code) := rfl
    rw [hkey]
    simp

/-- A key is its own rebuilt form when its codes are canonical, and then only. -/
theorem rebuild_eq_self_iff_isCanonical : k.rebuild Pattern = k ↔ k.IsCanonical := by
  obtain ⟨values⟩ := k
  have hmap : values.map (fun v => (CellKey.cell (α := Pattern) v).key) = values.map id ↔
      ∀ v ∈ values, (CellKey.cell (α := Pattern) v).key = v := List.map_inj_left
  rw [List.map_id] at hmap
  rw [rebuild_eq_map, RowKey.mk.injEq, hmap]
  simp only [key_cell_eq_self_iff, IsCanonical]
  constructor
  · exact fun h code hcode => h _ hcode code rfl
  · rintro h v hv code rfl
    exact h code hv

/-- Keys have the same rebuilt form when their cells have the same values. -/
theorem rebuild_eq_rebuild_iff :
    k.rebuild Pattern = l.rebuild Pattern ↔
      List.Forall₂ Cell.SameValue k.toCells l.toCells := by
  rw [rebuild_eq_map, rebuild_eq_map, RowKey.mk.injEq, map_eq_map_iff_forall₂, toCells, toCells,
    List.forall₂_map_left_iff, List.forall₂_map_right_iff]
  exact ⟨fun h => h.imp fun _ _ => Cell.key_eq_key_iff.mp,
    fun h => h.imp fun _ _ => Cell.key_eq_key_iff.mpr⟩

theorem rebuild_rebuild (k : RowKey UInt64) :
    (k.rebuild Pattern).rebuild Pattern = k.rebuild Pattern :=
  rebuild_ofRow (α := Pattern) _ _

/-! ## Decoded keys -/

theorem decode_encode_cell (v : CellKey UInt64) : CellKey.decode v.encode = .ok v := by
  cases v with
  | empty | boolean | text => rfl
  | number code =>
    have hword : code.toNat < 2 ^ 64 := code.toNat_lt
    have hrange : (0 : Int) ≤ code.toNat ∧ (code.toNat : Int) ≤ 0xFFFFFFFFFFFFFFFF := by omega
    change (Wire.wholeIn 0 0xFFFFFFFFFFFFFFFF (.int code.toNat)).map _ = _
    rw [Wire.wholeIn, if_pos hrange]
    exact congrArg (fun bits => Except.ok (CellKey.number bits)) (UInt64.ofNat_toNat (x := code))

/-- A key is decoded from what it is written to, whatever its codes. -/
theorem decode_encode (k : RowKey UInt64) : decode k.encode = .ok k := by
  have hread : (RowKey.mk <$> Wire.Record.required "values" (Wire.list CellKey.decode)).ReadsAs
      [("values", .arr (k.values.map CellKey.encode))] k :=
    .map _ (.field (j := .arr (k.values.map CellKey.encode))
      (Wire.items_map _ fun v _ => decode_encode_cell v) rfl)
  exact hread.decode (by simp)

/-- Any key at all is decoded from what it is written to, and it is its own rebuilt form exactly
when its codes are canonical, as those of a key made from a row are. Rebuilding makes the codes
canonical and leaves the values of the cells, and it gives the same key with doubles for numbers.
Canonical keys are equal exactly when their cells have the same values. -/
theorem rebuild_of_decoded_key (k : RowKey UInt64) :
    decode k.encode = .ok k ∧ (k.rebuild Pattern = k ↔ k.IsCanonical) ∧
      (∀ (row : List (Cell Pattern)) (positions : List Nat),
        k = ofRow row positions → k.rebuild Pattern = k) ∧
      (∀ (row : List (Cell Float)) (positions : List Nat),
        k = ofRow row positions → k.rebuild Float = k) ∧
      k.rebuild Float = k.rebuild Pattern ∧ (k.rebuild Pattern).IsCanonical ∧
      List.Forall₂ Cell.SameValue (k.rebuild Pattern).toCells k.toCells ∧
      ∀ l : RowKey UInt64, k.IsCanonical → l.IsCanonical →
        (k = l ↔ List.Forall₂ Cell.SameValue k.toCells l.toCells) := by
  refine ⟨decode_encode k, rebuild_eq_self_iff_isCanonical, ?_, ?_, rebuild_float k, ?_, ?_, ?_⟩
  · intro row positions hk
    rw [hk, rebuild_ofRow]
  · intro row positions hk
    rw [hk]
    exact rebuild_ofRow row positions
  · exact rebuild_eq_self_iff_isCanonical.mp (rebuild_rebuild k)
  · exact rebuild_eq_rebuild_iff.mp (rebuild_rebuild k)
  · intro l hk hl
    rw [← rebuild_eq_rebuild_iff, rebuild_eq_self_iff_isCanonical.mpr hk,
      rebuild_eq_self_iff_isCanonical.mpr hl]

/-- A key with a number and a text is its own rebuilt form, also after it was written and read. -/
theorem rebuild_of_decoded_key_one :
    let k : RowKey UInt64 := ⟨[.number 0x3FF0000000000000, .text "x"]⟩
    let l : RowKey UInt64 := ofRow [.number (1.0 : Float), .text "x"] [0, 1]
    k.IsCanonical ∧ l.IsCanonical ∧ decode k.encode = .ok k ∧ k.rebuild Float = k ∧
      (k = l ↔ List.Forall₂ Cell.SameValue k.toCells l.toCells) := by
  intro k l
  obtain ⟨hdecode, hrebuild, -, -, hfloat, -, -, hequal⟩ := rebuild_of_decoded_key k
  obtain ⟨-, hother, -, hrow, hfloat', -⟩ := rebuild_of_decoded_key l
  have hk : k.IsCanonical := hrebuild.mp (by decide +kernel)
  have hl : l.IsCanonical := hother.mp (hfloat' ▸ hrow _ _ rfl)
  exact ⟨hk, hl, hdecode, hfloat.trans (hrebuild.mpr hk), hequal l hk hl⟩

/-- The code of the negative zero and that of another pattern that is no number are decoded as they
are. Such a key is not its own rebuilt form, and it is another key than the canonical one, whose
cells have the same values. -/
theorem decoded_key_not_rebuilt :
    let keyOf (code : Int) : Json := .obj [("values", .arr [.obj [("Number", .int code)]])]
    ∃ negativeZero zero payload none : RowKey UInt64,
      (decode (keyOf 0x8000000000000000) = .ok negativeZero ∧ decode (keyOf 0) = .ok zero ∧
        negativeZero.rebuild Pattern ≠ negativeZero ∧ negativeZero ≠ zero ∧
        List.Forall₂ Cell.SameValue negativeZero.toCells zero.toCells) ∧
      decode (keyOf 0xFFF8000000000001) = .ok payload ∧
        decode (keyOf 0x7FF8000000000000) = .ok none ∧
        payload.rebuild Pattern ≠ payload ∧ payload ≠ none ∧
        List.Forall₂ Cell.SameValue payload.toCells none.toCells := by
  intro keyOf
  refine ⟨⟨[.number 0x8000000000000000]⟩, ⟨[.number 0]⟩, ⟨[.number 0xFFF8000000000001]⟩,
    ⟨[.number 0x7FF8000000000000]⟩, ⟨rfl, rfl, ?_, by decide, ?_⟩, rfl, rfl, ?_, by decide, ?_⟩
  · decide +kernel
  · exact rebuild_eq_rebuild_iff.mp (by decide +kernel)
  · decide +kernel
  · exact rebuild_eq_rebuild_iff.mp (by decide +kernel)

end RowKey
end TableSteps
