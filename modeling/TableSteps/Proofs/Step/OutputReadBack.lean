import TableSteps.Proofs.Binary64.Finite
import TableSteps.Proofs.Finite.Decoding
import TableSteps.Proofs.Wire.ReadBack
import TableSteps.Step.Output

/-! # Results are read back

JSON has no number that is not finite, so such a number is written as null. A cell that held it is
read back empty, a value of a formula is read back missing; nothing else about a result changes. -/

namespace TableSteps

open Quantity WireQuantity
open TableSteps.Wire.Record (ReadsAs)

/-- Numbers that are not finite are written as null. -/
class NullLaws (α : Type) [WireQuantity α] : Prop where
  toJson_of_not_isFinite {x : α} : isFinite x = false → toJson x = .null

instance : NullLaws Float where
  toJson_of_not_isFinite h := if_neg (Bool.eq_false_iff.mp h)

variable {α : Type} [WireQuantity α]

/-! ## What is stored of a result -/

/-- A number that is not finite leaves the cell empty. -/
def Cell.stored : Cell α → Cell α
  | .number x => if isFinite x then .number x else .empty
  | c => c

def Table.stored (t : Table α) : Table α := t.withRows (t.rows.map (·.map Cell.stored))

/-- A value that is not finite is missing. -/
def FormulaValue.stored (f : FormulaValue α) : FormulaValue α :=
  { f with value := f.value.filter isFinite }

/-- The result with all numbers that are not finite left out. -/
def StepOutput.stored (r : StepOutput α) : StepOutput α :=
  { r with
    table := r.table.map Table.stored
    formulas := r.formulas.map (·.map FormulaValue.stored) }

def FormulaValue.IsFinite (f : FormulaValue α) : Prop := ∀ x, f.value = some x → isFinite x = true

/-- All cells and all values of formulas are finite. -/
def StepOutput.IsFinite (r : StepOutput α) : Prop :=
  (∀ t, r.table = some t → t.IsFinite) ∧ ∀ fs, r.formulas = some fs → ∀ f ∈ fs, f.IsFinite

theorem Cell.isFinite_stored (c : Cell α) : c.stored.IsFinite := by
  intro x hx
  cases c with
  | number y =>
    simp only [stored] at hx
    split at hx
    · rename_i hy
      cases hx
      exact hy
    · cases hx
  | empty | boolean b | text s => cases hx

theorem Cell.stored_eq_self_iff {c : Cell α} : c.stored = c ↔ c.IsFinite := by
  refine ⟨fun h => h ▸ c.isFinite_stored, fun h => ?_⟩
  cases c with
  | number x => exact if_pos (h x rfl)
  | empty | boolean b | text s => rfl

theorem map_eq_self_iff {β : Type} {f : β → β} {xs : List β} :
    xs.map f = xs ↔ ∀ x ∈ xs, f x = x := by
  simpa using List.map_inj_left (l := xs) (f := f) (g := id)

theorem Table.stored_eq_self_iff {t : Table α} : t.stored = t ↔ t.IsFinite := by
  have hrows : t.stored = t ↔ (t.rows.map (·.map Cell.stored)) = t.rows := by
    obtain ⟨columns, rows⟩ := t
    simp [stored, withRows]
  simp only [hrows, map_eq_self_iff, Cell.stored_eq_self_iff, IsFinite]

theorem FormulaValue.stored_eq_self_iff {f : FormulaValue α} : f.stored = f ↔ f.IsFinite := by
  obtain ⟨name, kind, value, unit⟩ := f
  cases value <;> simp [stored, IsFinite, Option.filter]

theorem StepOutput.stored_eq_self_iff {r : StepOutput α} : r.stored = r ↔ r.IsFinite := by
  obtain ⟨table, chart, formulas⟩ := r
  cases table <;> cases formulas <;>
    simp [stored, IsFinite, Table.stored_eq_self_iff, FormulaValue.stored_eq_self_iff,
      map_eq_self_iff]

/-! ## What was not stored is not written -/

section Null

variable [NullLaws α]

theorem Cell.toJson_stored (c : Cell α) : c.stored.toJson = c.toJson := by
  cases c with
  | number x =>
    cases hx : isFinite x with
    | true => simp [stored, hx]
    | false => simp [stored, hx, toJson, NullLaws.toJson_of_not_isFinite hx]
  | empty | boolean b | text s => rfl

theorem Table.encode_stored (t : Table α) : t.stored.encode = t.encode := by
  simp [encode, stored, withRows, Function.comp_def, Cell.toJson_stored]

theorem FormulaValue.encode_stored (f : FormulaValue α) : f.stored.encode = f.encode := by
  obtain ⟨name, kind, value, unit⟩ := f
  have hvalue : optionToJson (value.filter isFinite) = optionToJson value := by
    cases value with
    | none => rfl
    | some x =>
      cases hx : isFinite x with
      | true => simp [Option.filter, hx]
      | false => simp [Option.filter, hx, optionToJson, NullLaws.toJson_of_not_isFinite hx]
  simp only [encode, stored, hvalue]

theorem StepOutput.encode_stored (r : StepOutput α) : r.stored.encode = r.encode := by
  simp [encode, stored, Option.map_map, Function.comp_def, Table.encode_stored,
    FormulaValue.encode_stored]

end Null

/-! ## Reading -/

theorem Table.isFinite_stored (t : Table α) : t.stored.IsFinite :=
  List.forall_mem_map.mpr fun _ _ => List.forall_mem_map.mpr fun c _ => c.isFinite_stored

theorem FormulaValue.isFinite_stored (f : FormulaValue α) : f.stored.IsFinite :=
  fun _ hx => (Option.filter_eq_some_iff.mp hx).2

theorem StepOutput.isFinite_stored (r : StepOutput α) : r.stored.IsFinite := by
  refine ⟨fun u hu => ?_, fun fs hfs => ?_⟩
  · obtain ⟨t, -, rfl⟩ := Option.map_eq_some_iff.mp hu
    exact t.isFinite_stored
  · obtain ⟨fs, -, rfl⟩ := Option.map_eq_some_iff.mp hfs
    exact List.forall_mem_map.mpr fun f _ => f.isFinite_stored

theorem Table.wellFormed_stored {t : Table α} (h : t.WellFormed) : t.stored.WellFormed := by
  refine ⟨h.nodup, List.forall_mem_map.mpr fun row hrow => ?_⟩
  rw [List.length_map]
  exact h.width row hrow

section ReadBack

variable [FiniteLaws α]

theorem FormulaValue.decode_encode {f : FormulaValue α} (h : f.IsFinite) :
    decode f.encode = .ok f := by
  obtain ⟨name, kind, value, unit⟩ := f
  have hvalue : Wire.nullable Wire.quantity (optionToJson value) = .ok value := by
    have hjson : optionToJson value = .ofOption (value.map toJson) := by cases value <;> rfl
    rw [hjson]
    exact Wire.nullable_ofOption nofun fun x hx => Wire.quantity_toJson (h x hx)
  have hunit : Wire.nullable Wire.text (.ofOption (unit.map .str)) = .ok unit :=
    Wire.nullable_ofOption nofun fun _ _ => rfl
  have htext (s : String) : Wire.text (.str s) = .ok s := rfl
  exact ReadsAs.decode (.seq (.seq (.seq (.map _ (.field (htext name) rfl))
    (.field (htext kind) rfl)) (.field hvalue rfl)) (.field hunit rfl)) (by simp)

theorem Figure.decode_encode (chart : Figure) : decode chart.encode = .ok chart := by
  obtain ⟨kind, data, layout⟩ := chart
  have hkind : Wire.text (.str kind) = .ok kind := rfl
  have hlayout : Wire.anything layout = .ok layout := rfl
  exact ReadsAs.decode (.seq (.seq (.map _ (.field hkind rfl))
    (.field (Wire.list_anything data) rfl)) (.field hlayout rfl)) (by simp)

/-- A part is written under its name if it is there, and read from there. -/
theorem StepOutput.decode_encode {r : StepOutput α} (ht : ∀ t, r.table = some t → t.WellFormed)
    (h : r.IsFinite) : decode r.encode = .ok r := by
  obtain ⟨table, chart, formulas⟩ := r
  obtain ⟨htable, hformulas⟩ := h
  have hlist (fs : List (FormulaValue α)) (hfs : formulas = some fs) :
      Wire.list FormulaValue.decode (.arr (fs.map FormulaValue.encode)) = .ok fs :=
    Wire.items_map fs fun f hf => FormulaValue.decode_encode (hformulas fs hfs f hf)
  let members : Dictionary Json := Dictionary.ofList
    ((table.map fun t => ("table", t.encode)).toList ++
      (chart.map fun c => ("chart", c.encode)).toList ++
      (formulas.map fun fs => ("formulas", Json.arr (fs.map FormulaValue.encode))).toList)
  have hget : members.get? "table" = table.map Table.encode ∧
      members.get? "chart" = chart.map Figure.encode ∧
      members.get? "formulas" = formulas.map fun fs => .arr (fs.map FormulaValue.encode) := by
    cases table <;> cases chart <;> cases formulas <;>
      simp [members, Dictionary.get?_ofList, List.lookup_cons]
  refine Wire.Record.decode_record_eq_ok_iff.mpr (Wire.Record.read_seq_eq_ok_iff.mpr
    ⟨_, formulas, Wire.Record.read_seq_eq_ok_iff.mpr ⟨_, chart, ?_, ?_, rfl⟩, ?_, rfl⟩)
  · rw [Wire.Record.read_map]
    exact map_eq_ok_iff.mpr ⟨table, Wire.Record.read_optional_of_written nofun
      (fun t hmem => Table.decode_encode (ht t hmem) (htable t hmem)) hget.1, rfl⟩
  · exact Wire.Record.read_optional_of_written nofun (fun c _ => c.decode_encode) hget.2.1
  · exact Wire.Record.read_optional_of_written nofun hlist hget.2.2

/-- A result is read back from JSON with all its numbers that are not finite left out, and with
nothing else changed. It is read back as it was exactly when all its numbers are finite; what is
read is written as the result was. -/
theorem output_read_back [NullLaws α] {r : StepOutput α}
    (ht : ∀ t, r.table = some t → t.WellFormed) :
    StepOutput.decode r.encode = .ok r.stored ∧
      (StepOutput.decode r.encode = .ok r ↔ r.IsFinite) ∧
      ∀ again : StepOutput α, StepOutput.decode r.encode = .ok again →
        again.encode = r.encode := by
  have hdecode : StepOutput.decode r.encode = .ok r.stored := by
    rw [← r.encode_stored]
    refine StepOutput.decode_encode (fun u hu => ?_) r.isFinite_stored
    obtain ⟨t, htable, rfl⟩ := Option.map_eq_some_iff.mp hu
    exact Table.wellFormed_stored (ht t htable)
  refine ⟨hdecode, ?_, fun again hagain => ?_⟩
  · rw [hdecode, Except.ok.injEq, StepOutput.stored_eq_self_iff]
  · rw [hdecode, Except.ok.injEq] at hagain
    rw [← hagain, r.encode_stored]

end ReadBack

/-- Infinity and NaN are lost, the zero of negative sign and the empty text are not. -/
theorem output_read_back_infinite :
    let r : StepOutput Float :=
      ⟨some ⟨["k", "n"], [[.text "", .number (1.0 / 0.0)], [.empty, .number (-0.0)]]⟩, none,
        some [⟨"m", "mean", some (0.0 / 0.0), none⟩, ⟨"s", "sum", some 2.5, some "kg"⟩]⟩
    let again : StepOutput Float :=
      ⟨some ⟨["k", "n"], [[.text "", .empty], [.empty, .number (-0.0)]]⟩, none,
        some [⟨"m", "mean", none, none⟩, ⟨"s", "sum", some 2.5, some "kg"⟩]⟩
    StepOutput.decode r.encode = .ok again ∧ StepOutput.decode r.encode ≠ .ok r ∧
      again.encode = r.encode := by
  intro r again
  have hwellFormed : ∀ t, r.table = some t → t.WellFormed := by
    rintro t ⟨rfl⟩
    exact ⟨by decide, by simp⟩
  have hstored : r.stored = again := rfl
  obtain ⟨hdecode, hexact, hencode⟩ := output_read_back hwellFormed
  rw [hstored] at hdecode
  refine ⟨hdecode, fun h => ?_, hencode again hdecode⟩
  have hfinite := (hexact.mp h).2 _ rfl _ List.mem_cons_self _ rfl
  exact absurd hfinite (by decide +kernel)

end TableSteps
