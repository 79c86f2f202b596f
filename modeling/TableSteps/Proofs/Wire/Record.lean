import TableSteps.Proofs.Outcome
import TableSteps.Wire.Record

/-! # Records read field by field

Reading a record succeeds when reading every field does, and gives the value made of theirs. A field
that may be null or left out sees no difference between the two. -/

namespace TableSteps.Wire

variable {σ τ : Type}

/-- A value that may be null or not there at all. -/
def orNull (d : Decoder τ) : Option Json → Except Fault (Option τ)
  | none => .ok none
  | some j => nullable d j

namespace Record

variable {p : Present}

theorem read_map (f : σ → τ) (x : Record σ) : (f <$> x).read p = (x.read p).map f := by
  change (apply (pure f) x).read p = (x.read p).map f
  cases hx : x.read p <;> simp [apply, pure, hx]

theorem read_seq_eq_ok_iff {f : Record (σ → τ)} {x : Record σ} {v : τ} :
    (f <*> x).read p = .ok v ↔ ∃ g w, f.read p = .ok g ∧ x.read p = .ok w ∧ g w = v := by
  change (apply f x).read p = .ok v ↔ _
  cases hf : f.read p <;> cases hx : x.read p <;> simp [apply, hf, hx]

theorem read_optional_eq_ok_iff {name : String} {d : Decoder τ} {v : Option τ} :
    (optional name d).read p = .ok v ↔ orNull d (p.get? name) = .ok v := by
  cases hj : p.get? name with
  | none => simp [optional, defaulted, field, hj, orNull]
  | some j => cases hd : nullable d j <;> simp [optional, defaulted, field, hj, orNull, hd]

theorem read_field_of_eq_some {name : String} {d : Decoder τ} {absent short : Option τ} {j : Json}
    {v : τ} (hj : p.get? name = some j) (hv : d j = .ok v) :
    (field name d absent short).read p = .ok v := by
  simp [field, hj, hv]

/-- The member of that name: by its key, or by its place in an array. -/
def member? (names : List String) (name : String) : Json → Option Json
  | .obj fields => (Dictionary.ofList fields).get? name
  | .arr items => List.lookup name (names.zip items)
  | _ => none

/-- What decodes to a value was read from its members. -/
theorem read_of_decode {r : Record τ} {j : Json} {v : τ} (h : r.decode j = .ok v) :
    ∃ positional, r.read ⟨fun name => member? r.names name j, positional⟩ = .ok v := by
  cases j with
  | obj fields => exact ⟨false, mapError_eq_ok_iff.mp h⟩
  | arr items =>
    refine ⟨true, ?_⟩
    simp only [decode, ofItems] at h
    split at h
    · cases h
    · rename_i w hw
      split at h
      · cases h
        exact hw
      · cases h
  | _ => cases h

theorem decode_obj_eq_ok_iff {r : Record τ} {fields : List (String × Json)} {v : τ} :
    r.decode (.obj fields) = .ok v ↔ r.read ⟨(Dictionary.ofList fields).get?, false⟩ = .ok v :=
  mapError_eq_ok_iff

/-- A record that was written with these fields is read by their names. -/
theorem decode_record_eq_ok_iff {r : Record τ} {fields : List (String × Json)} {v : τ} :
    r.decode (.record fields) = .ok v ↔
      r.read ⟨(Dictionary.ofList fields).get?, false⟩ = .ok v := by
  rw [Json.record, Json.object, decode_obj_eq_ok_iff, Dictionary.ofList_entries]

/-! ## Reading what was written -/

/-- Wherever these fields are present the record is read as this value. -/
def ReadsAs (r : Record τ) (fields : List (String × Json)) (v : τ) : Prop :=
  ∀ p : Present, (∀ name j, (name, j) ∈ fields → p.get? name = some j) → r.read p = .ok v

namespace ReadsAs

variable {fields : List (String × Json)}

theorem map {x : Record σ} {w : σ} (f : σ → τ) (hx : x.ReadsAs fields w) :
    (f <$> x).ReadsAs fields (f w) := by
  intro p hp
  rw [read_map, hx p hp, ok_map]

theorem seq {f : Record (σ → τ)} {x : Record σ} {g : σ → τ} {w : σ} (hf : f.ReadsAs fields g)
    (hx : x.ReadsAs fields w) : (f <*> x).ReadsAs fields (g w) :=
  fun p hp => read_seq_eq_ok_iff.mpr ⟨g, w, hf p hp, hx p hp, rfl⟩

theorem field {name : String} {j : Json} {d : Decoder τ} {absent short : Option τ} {v : τ}
    (hv : d j = .ok v) (hfound : fields.lookup name = some j) :
    (Record.field name d absent short).ReadsAs fields v :=
  fun _ hp => read_field_of_eq_some (hp name j (Dictionary.mem_of_lookup hfound)) hv

theorem decode {r : Record τ} {v : τ} (h : r.ReadsAs fields v)
    (hnodup : (fields.map Prod.fst).Nodup) : r.decode (.record fields) = .ok v :=
  decode_record_eq_ok_iff.mpr (h _ fun _ _ hmem => Dictionary.get?_ofList_of_mem hnodup hmem)

theorem tagged {key tag : String} {variants : List (String × Record τ)} {r : Record τ} {v : τ}
    (hr : variants.lookup tag = some r) (h : r.ReadsAs fields v)
    (hnodup : (key :: fields.map Prod.fst).Nodup) :
    Record.tagged key variants (.record ((key, .str tag) :: fields)) = .ok v := by
  have hfound {name : String} {j : Json} (hmem : (name, j) ∈ (key, .str tag) :: fields) :
      (Dictionary.ofList ((key, .str tag) :: fields)).get? name = some j :=
    Dictionary.get?_ofList_of_mem (by simpa using hnodup) hmem
  simp only [Record.tagged, Json.record, Json.object, Dictionary.ofList_entries,
    hfound List.mem_cons_self, hr]
  refine mapError_eq_ok_iff.mpr (h _ fun name j hmem => ?_)
  have hname : name ≠ key := fun he =>
    (List.nodup_cons.mp hnodup).1 (he ▸ List.mem_map_of_mem hmem)
  exact (Dictionary.get?_erase ..).trans
    ((if_neg hname).trans (hfound (List.mem_cons_of_mem _ hmem)))

end ReadsAs

end Record

/-- A value that may be null, where null is no value itself. -/
theorem nullable_ofOption {d : Decoder τ} {encode : τ → Json} (hnull : ∀ v, d .null ≠ .ok v)
    {x : Option τ} (h : ∀ v, x = some v → d (encode v) = .ok v) :
    nullable d (.ofOption (x.map encode)) = .ok x := by
  cases x with
  | none => rfl
  | some v =>
    have hv := h v rfl
    simp only [Option.map_some, Json.ofOption]
    cases hj : encode v with
    | null => exact absurd (hj ▸ hv) (hnull v)
    | bool | int | float | str | arr | obj => simp [nullable, ← hj, hv]

/-- A field that is left out when there is no value. -/
theorem Record.read_optional_of_written {p : Present} {name : String} {d : Decoder τ}
    {encode : τ → Json} (hnull : ∀ v, d .null ≠ .ok v) {x : Option τ}
    (h : ∀ v, x = some v → d (encode v) = .ok v) (hp : p.get? name = x.map encode) :
    (optional name d).read p = .ok x := by
  rw [read_optional_eq_ok_iff, hp]
  cases x with
  | none => rfl
  | some v => exact nullable_ofOption hnull h

/-! ## One member -/

/-- The object that has one member of a record, if the record has it, and no other. -/
def single (name : String) (value : Option Json) : Json := .obj (value.toList.map (name, ·))

theorem get?_single (name : String) (value : Option Json) (key : String) :
    (Dictionary.ofList (value.toList.map (name, ·))).get? key =
      if key = name then value else none := by
  rw [Dictionary.get?_ofList]
  cases value with
  | none => simp
  | some j => by_cases h : key = name <;> simp [List.lookup_cons, h, beq_eq_false_iff_ne.mpr]

end TableSteps.Wire
