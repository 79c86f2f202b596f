import TableSteps.Proofs.Wire.Storable
import TableSteps.Table.Records
import TableSteps.Table.WellFormed
import TableSteps.Transform.Config

/-! # Documents give finite numbers

A JSON document holds finite numbers alone, and so do the tables and the constants of transforms
that are decoded from one, and the tables made of records. A finite table in turn is read back from
the document it is written to. -/

namespace TableSteps

open Quantity WireQuantity

variable {α : Type} [WireQuantity α]

/-! ## Reading -/

section Reading

variable [FiniteLaws α]

theorem Cell.isFinite_of_ofJson? {j : Json} {c : Cell α} (hj : j.Storable)
    (h : ofJson? j = some c) : c.IsFinite := by
  intro x hx
  cases hj with
  | int hn =>
    cases h
    cases hx
    exact FiniteLaws.isFinite_ofInt hn
  | float hy =>
    cases h
    cases hx
    exact FiniteLaws.isFinite_ofFloat hy
  | null | bool | str =>
    cases h
    cases hx
  | arr | obj => cases h

theorem Cell.decode_gives : Wire.Gives decode (Cell.IsFinite (α := α)) := by
  intro j c hj hc
  simp only [decode] at hc
  split at hc
  · rename_i hd
    cases hc
    exact isFinite_of_ofJson? hj hd
  · cases hc

theorem Table.decodeParts_gives :
    Wire.Gives (decodeParts (α := α)) fun parts => ∀ row ∈ parts.2, ∀ c ∈ row, c.IsFinite := by
  have hrows := Wire.Gives.list (Wire.Gives.list (Cell.decode_gives (α := α)))
  refine Wire.Record.Gives.decode (.seq (.map (.trivial _) ?_) (.defaulted hrows (by simp)))
  exact fun columns _ rows hfinite => hfinite

theorem Table.isFinite_of_decode? {j : Json} {t : Table α} (hj : j.Storable)
    (h : decode? j = .ok t) : t.IsFinite := by
  unfold decode? at h
  split at h
  · cases h
  · rename_i columns rows hparts
    obtain ⟨rfl, -⟩ := ofRows_eq_ok_iff.mp (mapError_eq_ok_iff.mp h)
    exact decodeParts_gives j _ hj hparts

theorem Table.decode_gives : Wire.Gives decode (Table.IsFinite (α := α)) := by
  intro j t hj ht
  unfold decode at ht
  split at ht
  · rename_i hd
    cases ht
    exact isFinite_of_decode? hj hd
  · cases ht
  · cases ht

theorem Table.isFinite_of_recordCell {record : Json} {members : Dictionary Json} {name : String}
    {c : Cell α} (hrecord : record.Storable) (hmembers : record.members? = some members)
    (h : recordCell members name = .ok c) : c.IsFinite := by
  unfold recordCell at h
  split at h
  · cases h
    exact Cell.isFinite_empty
  · rename_i value hvalue
    split at h
    · rename_i hc
      cases h
      cases hrecord with
      | obj hfields =>
        cases hmembers
        exact Cell.isFinite_of_ofJson? (hfields _ (Dictionary.mem_of_get?_ofList hvalue)) hc
      | null | bool | int | float | str | arr => cases hmembers
    · cases h

theorem Table.isFinite_of_ofRecords {records : List Json} {t : Table α}
    (hrecords : ∀ record ∈ records, record.Storable) (h : ofRecords records = .ok t) :
    t.IsFinite := by
  obtain ⟨members, hmembers, h⟩ := bind_eq_ok_iff.mp h
  obtain ⟨rows, hrows, h⟩ := bind_eq_ok_iff.mp h
  cases h
  intro row hrow c hc
  obtain ⟨m, hm, hrow⟩ := exists_of_mem_mapM hrows hrow
  have hlisted : some m ∈ records.map Json.members? :=
    recordMembers_eq_ok_iff.mp hmembers ▸ List.mem_map_of_mem hm
  obtain ⟨record, hrecord, hm⟩ := List.mem_map.mp hlisted
  obtain ⟨name, -, hc⟩ := exists_of_mem_mapM hrow hc
  exact isFinite_of_recordCell (hrecords record hrecord) hm hc

/-- The constants and the targets of lookups are finite. -/
def Calculation.IsFinite : Calculation α → Prop
  | .constant value => value.IsFinite
  | .mapping _ targets => ∀ label c, targets.get? label = some c → c.IsFinite
  | .copy _ | .formula .. => True

def Transform.IsFinite (config : Transform α) : Prop :=
  ∀ o ∈ config.operations, o.calculation.IsFinite

theorem Calculation.decode_gives : Wire.Gives decode (Calculation.IsFinite (α := α)) := by
  have hcell := Cell.decode_gives (α := α)
  refine Wire.Record.Gives.tagged fun variant hvariant => ?_
  simp only [List.mem_cons, List.not_mem_nil, or_false] at hvariant
  rcases hvariant with rfl | rfl | rfl | rfl
  · exact .map (.defaulted hcell Cell.isFinite_empty) fun value hvalue => hvalue
  · exact .map (.trivial _) fun source _ => trivial
  · exact .seq (.seq (.map (.trivial _) fun _ _ _ _ _ _ => trivial) (.trivial _)) (.trivial _)
  · exact .seq (.map (.trivial _) fun source _ targets htargets => htargets)
      (.required (.dictionary hcell))

theorem Operation.decode_gives :
    Wire.Gives decode fun o : Operation α => o.calculation.IsFinite :=
  Wire.Record.Gives.decode (.seq (.seq (.map (.trivial _) fun _ _ _ _ _ h => h) (.trivial _))
    (.required Calculation.decode_gives))

theorem Transform.decode_gives : Wire.Gives decode (Transform.IsFinite (α := α)) :=
  Wire.Record.Gives.decode (.map (.required (.list Operation.decode_gives)) fun _ h => h)

end Reading

/-! ## Written and read back -/

section Writing

variable [FiniteLaws α]

theorem Cell.decode_toJson {c : Cell α} (h : c.IsFinite) : decode c.toJson = .ok c := by
  cases c with
  | number x =>
    have hx := FiniteLaws.ofJson?_toJson (h x rfl)
    simp only [decode, toJson]
    cases hj : WireQuantity.toJson x with
    | int n | float y =>
      rw [hj] at hx
      cases hx
      rfl
    | null | bool | str | arr | obj =>
      rw [hj] at hx
      cases hx
  | empty | boolean b | text s => rfl

/-- A well-formed table of finite numbers is read back as it was written. -/
theorem Table.decode_encode {t : Table α} (ht : t.WellFormed) (hfinite : t.IsFinite) :
    decode t.encode = .ok t := by
  have hcolumns : Wire.list Wire.text (.strings t.columns) = .ok t.columns :=
    Wire.items_map_str t.columns
  have hrows : Wire.list (Wire.list Cell.decode)
      (.arr (t.rows.map fun row => .arr (row.map Cell.toJson))) = .ok t.rows := by
    refine Wire.items_map t.rows fun row hrow => ?_
    exact Wire.items_map row fun c hc => Cell.decode_toJson (hfinite row hrow c hc)
  have hparts : decodeParts t.encode = .ok (t.columns, t.rows) :=
    Wire.Record.ReadsAs.decode (.seq (.map _ (.field hcolumns rfl)) (.field hrows rfl)) (by simp)
  unfold decode decode?
  rw [hparts]
  simp only [ofRows_eq_ok_iff.mpr ⟨rfl, ht⟩, ok_mapError]

end Writing
end TableSteps
