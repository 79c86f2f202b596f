import TableSteps.Proofs.Finite.Decoding
import TableSteps.Proofs.Wire.ReadBack
import TableSteps.Step.Basic

/-! # Configs are read back

A config that was decoded is written with all its fields, and decoding what was written gives the
config again. One lemma a type: the fields of a record agree with their decoders, so the record
does; of a tagged record every variant does. -/

namespace TableSteps

open TableSteps.Wire (ReadsBack)
open TableSteps.Wire.Record (ReadsAs)
open TableSteps.Wire.ReadsBack (required defaulted optional text texts boolean signedWord quantity)

variable {α : Type} [WireQuantity α] [FiniteLaws α]

theorem Subject.readsBack : ReadsBack decode encode := .of_forall decode_encode

theorem Cell.readsBack : ReadsBack (decode (α := α)) toJson :=
  fun j c hj hc => decode_toJson (decode_gives j c hj hc)

/-! ## Aggregations -/

theorem Entry.readsBack : ReadsBack decode encode := by
  refine Wire.Record.Gives.decode (.seq (.seq (.map (required text) ?_)
    (required Subject.readsBack)) (required (.of_forall Method.decode_encode)))
  intro name hname subject hsubject method hmethod
  exact ReadsAs.decode (.seq (.seq (.map _ (.field hname rfl)) (.field hsubject rfl))
    (.field hmethod rfl)) (by simp)

theorem Aggregation.readsBack : ReadsBack decode encode := by
  refine Wire.Record.Gives.decode (.seq (.map (required texts) ?_)
    (required Entry.readsBack.list))
  intro axis haxis entries hentries
  exact ReadsAs.decode (.seq (.map _ (.field haxis rfl)) (.field hentries rfl)) (by simp)

/-! ## Filters -/

theorem Bound.readsBack : ReadsBack (decode (α := α)) encode := by
  refine Wire.Record.Gives.decode (.seq (.seq (.map (required quantity) ?_)
    (defaulted boolean rfl)) (defaulted boolean rfl))
  intro value hvalue enabled henabled inclusive hinclusive
  exact ReadsAs.decode (.seq (.seq (.map _ (.field hvalue rfl)) (.field henabled rfl))
    (.field hinclusive rfl)) (by simp)

theorem NumberFilter.readsBack : ReadsBack (decode (α := α)) encode := by
  -- The bounds of a band that are left out are whole numbers, which are read back too.
  have hpercent {n : Nat} (hn : n < 2 ^ 64) :
      Wire.quantity (WireQuantity.toJson (Quantity.ofNat n : α)) = .ok (Quantity.ofNat n) :=
    Wire.quantity_toJson (FiniteLaws.isFinite_ofNat hn)
  refine Wire.Record.Gives.tagged fun variant hvariant => ?_
  simp only [List.mem_cons, List.not_mem_nil, or_false] at hvariant
  rcases hvariant with rfl | rfl | rfl
  · refine .seq (.seq (.map (required text) ?_) (optional Bound.readsBack nofun))
      (optional Bound.readsBack nofun)
    intro column hcolumn min hmin max hmax
    exact ReadsAs.tagged rfl (.seq (.seq (.map _ (.field hcolumn rfl)) (.field hmin rfl))
      (.field hmax rfl)) (by simp)
  · refine .seq (.seq (.map (required text) ?_) (required signedWord)) (defaulted boolean rfl)
    intro column hcolumn count hcount ascending hascending
    exact ReadsAs.tagged rfl (.seq (.seq (.map _ (.field hcolumn rfl)) (.field hcount rfl))
      (.field hascending rfl)) (by simp)
  · refine .seq (.seq (.map (required text) ?_) (defaulted quantity (hpercent (by decide))))
      (defaulted quantity (hpercent (by decide)))
    intro column hcolumn low hlow high hhigh
    exact ReadsAs.tagged rfl (.seq (.seq (.map _ (.field hcolumn rfl)) (.field hlow rfl))
      (.field hhigh rfl)) (by simp)

theorem JoinFilter.readsBack : ReadsBack decode encode := by
  refine Wire.Record.Gives.decode (.seq (.seq (.seq (.map (defaulted boolean rfl) ?_)
    (optional text nofun)) (defaulted texts rfl)) (defaulted boolean rfl))
  intro enabled henabled reference hreference keys hkeys exclude hexclude
  exact ReadsAs.decode (.seq (.seq (.seq (.map _ (.field henabled rfl))
    (.field hreference rfl)) (.field hkeys rfl)) (.field hexclude rfl)) (by simp)

theorem Filter.readsBack : ReadsBack (decode (α := α)) encode := by
  have hvalues : ReadsBack (Wire.list Wire.anything) .arr := .of_forall Wire.list_anything
  refine Wire.Record.Gives.decode (.seq (.seq (.map (optional hvalues.dictionary nofun) ?_)
    (optional NumberFilter.readsBack nofun)) (optional JoinFilter.readsBack nofun))
  intro categories hcategories numeric hnumeric join hjoin
  exact ReadsAs.decode (.seq (.seq (.map _ (.field hcategories rfl)) (.field hnumeric rfl))
    (.field hjoin rfl)) (by simp)

/-! ## Transforms -/

omit [FiniteLaws α] in
/-- No text is read as a number, so a number that was written is not taken for a name. -/
theorem Operand.decode_eq_ok_iff {j : Json} {operand : Operand α} :
    decode j = .ok operand ↔
      (∃ name, .str name = j ∧ .named name = operand) ∨
      ∃ x, Wire.quantity j = .ok x ∧ .literal x = operand := by
  cases j with
  | str name => simp [decode, Wire.quantity, WireQuantity.ofJson?]
  | null | bool | int | float | arr | obj => simp [decode, map_eq_ok_iff]

theorem Operand.readsBack : ReadsBack (decode (α := α)) encode := by
  intro j operand hj h
  rcases decode_eq_ok_iff.mp h with ⟨name, rfl, rfl⟩ | ⟨x, hx, rfl⟩
  · rfl
  · exact decode_eq_ok_iff.mpr (.inr ⟨x, quantity j x hj hx, rfl⟩)

theorem Calculation.readsBack : ReadsBack (decode (α := α)) encode := by
  refine Wire.Record.Gives.tagged fun variant hvariant => ?_
  simp only [List.mem_cons, List.not_mem_nil, or_false] at hvariant
  rcases hvariant with rfl | rfl | rfl | rfl
  · refine .map (defaulted Cell.readsBack rfl) ?_
    intro value hvalue
    exact ReadsAs.tagged rfl (.map _ (.field hvalue rfl)) (by simp)
  · refine .map (required text) ?_
    intro source hsource
    exact ReadsAs.tagged rfl (.map _ (.field hsource rfl)) (by simp)
  · refine .seq (.seq (.map (required Operand.readsBack) ?_)
      (required (.of_forall Operator.decodeInCalculation_symbol))) (required Operand.readsBack)
    intro left hleft op hop right hright
    exact ReadsAs.tagged rfl (.seq (.seq (.map _ (.field hleft rfl)) (.field hop rfl))
      (.field hright rfl)) (by simp)
  · refine .seq (.map (required text) ?_) (required Cell.readsBack.dictionary)
    intro source hsource targets htargets
    exact ReadsAs.tagged rfl (.seq (.map _ (.field hsource rfl)) (.field htargets rfl)) (by simp)

theorem Operation.readsBack : ReadsBack (decode (α := α)) encode := by
  refine Wire.Record.Gives.decode (.seq (.seq (.map (required (.of_forall Intent.decode_tag)) ?_)
    (required text)) (required Calculation.readsBack))
  intro intent hintent target htarget calculation hcalculation
  exact ReadsAs.decode (.seq (.seq (.map _ (.field hintent rfl)) (.field htarget rfl))
    (.field hcalculation rfl)) (by simp)

theorem Transform.readsBack : ReadsBack (decode (α := α)) encode := by
  refine Wire.Record.Gives.decode (.map (required Operation.readsBack.list) ?_)
  intro operations hoperations
  exact ReadsAs.decode (.map _ (.field hoperations rfl)) (by simp)

/-! ## Summaries -/

/-- The options of a chart are the members beside its tag. -/
theorem ChartSpec.readsBack : ReadsBack decode encode := by
  intro j spec _ h
  cases j with
  | obj fields =>
    simp only [decode] at h
    split at h
    · cases h
      simp [decode, encode, Json.object, Dictionary.erase_insert]
    · cases h
    · cases h
  | null | bool | int | float | str | arr => cases h

theorem SummaryFormula.readsBack : ReadsBack (decode (α := α)) encode := by
  have hone : Wire.quantity (WireQuantity.toJson (Quantity.ofNat 1 : α)) =
      .ok (Quantity.ofNat 1) :=
    Wire.quantity_toJson (FiniteLaws.isFinite_ofNat (by decide))
  refine Wire.Record.Gives.decode (.seq (.seq (.seq (.seq (.seq
    (.map (optional ReadsBack.text nofun) ?_) (optional Subject.readsBack nofun))
    (required (.of_forall FormulaMethod.decode_tag))) (optional ReadsBack.text nofun))
    (optional ReadsBack.text nofun)) (defaulted quantity hone))
  intro name hname subject hsubject method hmethod written hwritten unit hunit portion hportion
  exact ReadsAs.decode (.seq (.seq (.seq (.seq (.seq (.map _ (.field hname rfl))
    (.field hsubject rfl)) (.field hmethod rfl)) (.field hwritten rfl)) (.field hunit rfl))
    (.field hportion rfl)) (by simp)

theorem Summary.readsBack : ReadsBack (decode (α := α)) encode := by
  refine Wire.Record.Gives.decode (.seq (.seq
    (.map (optional SummaryFormula.readsBack.list nofun) ?_) (optional ChartSpec.readsBack nofun))
    (defaulted boolean rfl))
  intro formulas hformulas chart hchart includeTable hincludeTable
  exact ReadsAs.decode (.seq (.seq (.map _ (.field hformulas rfl)) (.field hchart rfl))
    (.field hincludeTable rfl)) (by simp)

end TableSteps
