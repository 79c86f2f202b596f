import TableSteps.Wire.Decoder

/-! # Decoding records

A record is an object with known keys, or an array of its fields in their order. A field that is
absent may have a default. Keys that no field has are passed over.

Of several faults the one that is met first counts. An object is read in the order of its keys,
an array in the order of the fields, and only when all fields that are present are sound are the
absent ones looked for, in the order of the fields. An array too short for a field that has no
default, or longer than the fields, has the wrong shape. -/

namespace TableSteps.Wire

/-- The fields of a record that are present. -/
structure Present where
  get? : String → Option Json
  /-- The record was given as an array. -/
  positional : Bool

/-- What keeps a record from being decoded: faults of fields that are present, and fields that are
absent, both in the order of the fields. -/
structure Gaps where
  faults : List (String × Fault)
  absent : List String

namespace Gaps

def append (g h : Gaps) : Gaps := ⟨g.faults ++ h.faults, g.absent ++ h.absent⟩

/-- The fault under the least key. -/
def leastFault? : List (String × Fault) → Option (String × Fault)
  | [] => none
  | f :: rest =>
    match leastFault? rest with
    | none => some f
    | some g => if g.1 < f.1 then some g else some f

def inObject (g : Gaps) : Fault :=
  match leastFault? g.faults, g.absent with
  | some (_, f), _ => f
  | none, name :: _ => .missingField name
  | none, [] => .wrongShape

def inArray (g : Gaps) : Fault :=
  match g.faults with
  | (_, f) :: _ => f
  | [] => .wrongShape

end Gaps

/-- A decoder for a record's fields: their names in order, and how to read them. -/
structure Record (τ : Type) where
  names : List String
  read : Present → Except Gaps τ

namespace Record

variable {σ τ : Type}

def pure (x : τ) : Record τ := ⟨[], fun _ => .ok x⟩

/-- The fields of both, in order. -/
def apply (f : Record (σ → τ)) (x : Record σ) : Record τ :=
  { names := f.names ++ x.names
    read := fun p =>
      match f.read p, x.read p with
      | .ok g, .ok v => .ok (g v)
      | .ok _, .error h => .error h
      | .error g, .ok _ => .error g
      | .error g, .error h => .error (g.append h) }

instance : Applicative Record where
  pure := pure
  seq f x := f.apply (x ())

/-- One field. `absent` says what an object without it stands for, `short` what an array that ends
before it does. -/
def field (name : String) (d : Decoder τ) (absent short : Option τ) : Record τ :=
  { names := [name]
    read := fun p =>
      match p.get? name with
      | some j =>
        match d j with
        | .ok x => .ok x
        | .error f => .error ⟨[(name, f)], []⟩
      | none =>
        match if p.positional then short else absent with
        | some x => .ok x
        | none => .error ⟨[], [name]⟩ }

/-- A field that must be there. -/
def required (name : String) (d : Decoder τ) : Record τ := field name d none none

/-- A field that may be left out. -/
def defaulted (name : String) (d : Decoder τ) (value : τ) : Record τ :=
  field name d (some value) (some value)

/-- A field that may be null or left out. -/
def optional (name : String) (d : Decoder τ) : Record (Option τ) :=
  defaulted name (nullable d) none

/-- A field that may be null, and left out of an object but not of an array. -/
def optionalByName (name : String) (d : Decoder τ) : Record (Option τ) :=
  field name (nullable d) (some none) none

def ofMembers (r : Record τ) (members : Dictionary Json) : Except Fault τ :=
  (r.read ⟨members.get?, false⟩).mapError Gaps.inObject

def ofItems (r : Record τ) (items : List Json) : Except Fault τ :=
  match r.read ⟨fun name => List.lookup name (r.names.zip items), true⟩ with
  | .error g => .error g.inArray
  | .ok x => if items.length ≤ r.names.length then .ok x else .error .wrongShape

def decode (r : Record τ) : Decoder τ
  | .obj fields => r.ofMembers (Dictionary.ofList fields)
  | .arr items => r.ofItems items
  | _ => .error .wrongShape

/-- A record whose fields hang on a tag, which is one more key of the object or the first item of
the array. -/
def tagged (key : String) (variants : List (String × Record τ)) : Decoder τ
  | .obj fields =>
    let members := Dictionary.ofList fields
    match members.get? key with
    | none => .error (.missingField key)
    | some (.str tag) =>
      match variants.lookup tag with
      | some r => r.ofMembers (members.erase key)
      | none => .error (.unknownVariant tag)
    | some _ => .error .wrongShape
  | .arr [] => .error (.missingField key)
  | .arr (.str tag :: items) =>
    match variants.lookup tag with
    | some r => r.ofItems items
    | none => .error (.unknownVariant tag)
  | _ => .error .wrongShape

end Record
end TableSteps.Wire
