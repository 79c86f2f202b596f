import TableSteps.Proofs.Wire.Storable
import TableSteps.Wire.Decoder

/-! # What was decoded is read back

A decoder and an encoder agree when every value that the decoder makes of a storable document is
decoded from what it is written to. Agreement goes through lists, dictionaries and values that may
be null; for a record it comes from its fields. -/

namespace TableSteps.Wire

variable {σ τ : Type} {d : Decoder τ} {encode : τ → Json}

/-- What the decoder makes of a storable document is decoded again from what it is written to. -/
abbrev ReadsBack (d : Decoder τ) (encode : τ → Json) : Prop :=
  Gives d fun v => d (encode v) = .ok v

theorem list_anything (js : List Json) : list anything (.arr js) = .ok js := by
  have h : items anything (js.map id) = .ok js := items_map js fun _ _ => rfl
  rwa [List.map_id] at h

/-- The members of a dictionary are written and decoded one by one. -/
theorem dictionary_object {members : Dictionary τ}
    (h : ∀ name x, members.get? name = some x → d (encode x) = .ok x) :
    dictionary d (.object (members.map encode)) = .ok members := by
  have hitems : items d ((members.map encode).entries.map Prod.snd) =
      .ok (members.entries.map Prod.snd) := by
    have hvalues : (members.map encode).entries.map Prod.snd =
        (members.entries.map Prod.snd).map encode := by
      simp [Dictionary.map]
    rw [hvalues]
    refine items_map _ fun x hx => ?_
    obtain ⟨⟨name, x⟩, hentry, rfl⟩ := List.mem_map.mp hx
    exact h name x (Dictionary.get?_of_mem hentry)
  have hkeys : (members.map encode).keys.zip (members.entries.map Prod.snd) = members.entries :=
    (List.zip_of_prod (Dictionary.keys_map encode members).symm rfl).symm
  rw [Json.object, dictionary, Dictionary.ofList_entries, values, hitems]
  simp only [hkeys, Dictionary.ofList_entries]

section Quantity

variable {α : Type} [WireQuantity α] [FiniteLaws α]

theorem quantity_gives : Gives quantity fun x : α => Quantity.isFinite x = true := by
  intro j x hj hx
  simp only [quantity] at hx
  split at hx
  · rename_i hread
    cases hx
    cases hj with
    | int hn =>
      cases hread
      exact FiniteLaws.isFinite_ofInt hn
    | float hy =>
      cases hread
      exact FiniteLaws.isFinite_ofFloat hy
    | null | bool | str | arr | obj => cases hread
  · cases hx

theorem quantity_toJson {x : α} (h : Quantity.isFinite x = true) :
    quantity (WireQuantity.toJson x) = .ok x := by
  rw [quantity, FiniteLaws.ofJson?_toJson h]

end Quantity

namespace ReadsBack

theorem of_forall (h : ∀ v, d (encode v) = .ok v) : ReadsBack d encode := fun _ v _ _ => h v

theorem text : ReadsBack Wire.text .str := of_forall fun _ => rfl

theorem boolean : ReadsBack Wire.boolean .bool := of_forall fun _ => rfl

theorem signedWord : ReadsBack Wire.signedWord .int := by
  intro j n _ hn
  cases j with
  | int m =>
    simp only [Wire.signedWord, wholeIn] at hn ⊢
    split at hn
    · rename_i hrange
      cases hn
      rw [if_pos hrange]
    · cases hn
  | null | bool | float | str | arr | obj => cases hn

theorem list (h : ReadsBack d encode) :
    ReadsBack (Wire.list d) fun xs => .arr (xs.map encode) :=
  fun j xs hj hxs => items_map xs (Gives.list h j xs hj hxs)

theorem texts : ReadsBack (Wire.list Wire.text) Json.strings := text.list

theorem nullable (h : ReadsBack d encode) (hnull : ∀ v, d .null ≠ .ok v) :
    ReadsBack (Wire.nullable d) fun x => .ofOption (x.map encode) :=
  fun j x hj hx => nullable_ofOption hnull (Gives.nullable h j x hj hx)

theorem dictionary (h : ReadsBack d encode) :
    ReadsBack (Wire.dictionary d) fun members => .object (members.map encode) :=
  fun j members hj hmembers => dictionary_object (Gives.dictionary h j members hj hmembers)

theorem required {name : String} (h : ReadsBack d encode) :
    (Record.required name d).Gives fun v => d (encode v) = .ok v :=
  .required h

theorem defaulted {name : String} {value : τ} (h : ReadsBack d encode)
    (hvalue : d (encode value) = .ok value) :
    (Record.defaulted name d value).Gives fun v => d (encode v) = .ok v :=
  .defaulted h hvalue

theorem optional {name : String} (h : ReadsBack d encode) (hnull : ∀ v, d .null ≠ .ok v) :
    (Record.optional name d).Gives fun x =>
      Wire.nullable d (.ofOption (x.map encode)) = .ok x :=
  .defaulted (nullable h hnull) rfl

theorem quantity {α : Type} [WireQuantity α] [FiniteLaws α] :
    ReadsBack (Wire.quantity (α := α)) WireQuantity.toJson :=
  fun j x hj hx => quantity_toJson (quantity_gives j x hj hx)

end ReadsBack
end TableSteps.Wire
