import TableSteps.Quantity

/-! # Decoding JSON values

A decoder takes a JSON value to a value of some type or names the fault that it found first. -/

namespace TableSteps.Wire

/-- What is wrong with the shape of a value. -/
inductive Fault where
  | missingField (name : String)
  | unknownVariant (tag : String)
  | wrongShape
deriving DecidableEq

def Fault.message : Fault → String
  | .missingField name => s!"missing field `{name}`"
  | .unknownVariant tag => s!"unknown variant `{tag}`"
  | .wrongShape => "wrong shape"

abbrev Decoder (τ : Type) := Json → Except Fault τ

/-- Anything at all. -/
def anything : Decoder Json := .ok

def text : Decoder String
  | .str s => .ok s
  | _ => .error .wrongShape

def boolean : Decoder Bool
  | .bool b => .ok b
  | _ => .error .wrongShape

/-- A whole number in a range. -/
def wholeIn (low high : Int) : Decoder Int
  | .int n => if low ≤ n ∧ n ≤ high then .ok n else .error .wrongShape
  | _ => .error .wrongShape

/-- A signed 64-bit word. -/
def signedWord : Decoder Int := wholeIn (-0x8000000000000000) 0x7FFFFFFFFFFFFFFF

/-- Any number, whole or not. -/
def quantity {α : Type} [WireQuantity α] : Decoder α := fun j =>
  match WireQuantity.ofJson? j with
  | some x => .ok x
  | none => .error .wrongShape

/-- Every item in order. -/
def items {τ : Type} (d : Decoder τ) : List Json → Except Fault (List τ)
  | [] => .ok []
  | j :: rest =>
    match d j with
    | .error f => .error f
    | .ok x =>
      match items d rest with
      | .error f => .error f
      | .ok xs => .ok (x :: xs)

/-- Items that were written one by one are read back. -/
theorem items_map {τ : Type} {d : Decoder τ} {encode : τ → Json} (xs : List τ)
    (h : ∀ x ∈ xs, d (encode x) = .ok x) : items d (xs.map encode) = .ok xs := by
  induction xs with
  | nil => rfl
  | cons x rest ih =>
    simp [items, h x List.mem_cons_self, ih fun y hy => h y (List.mem_cons_of_mem _ hy)]

theorem items_map_str (names : List String) : items text (names.map .str) = .ok names :=
  items_map names fun _ _ => rfl

def list {τ : Type} (d : Decoder τ) : Decoder (List τ)
  | .arr js => items d js
  | _ => .error .wrongShape

/-- Null, or a value. -/
def nullable {τ : Type} (d : Decoder τ) : Decoder (Option τ)
  | .null => .ok none
  | j => (d j).map some

/-- Decodes every entry in order; the keys stay. -/
def values {τ : Type} (d : Decoder τ) (members : Dictionary Json) :
    Except Fault (Dictionary τ) :=
  match items d (members.entries.map Prod.snd) with
  | .error f => .error f
  | .ok xs => .ok (Dictionary.ofList (members.keys.zip xs))

/-- An object with any keys and values of one type. -/
def dictionary {τ : Type} (d : Decoder τ) : Decoder (Dictionary τ)
  | .obj fields => values d (Dictionary.ofList fields)
  | _ => .error .wrongShape

/-- The value whose tag this is. -/
def ofTag {τ : Type} (all : List τ) (tag : τ → String) (s : String) : Except Fault τ :=
  match all.find? fun x => tag x == s with
  | some x => .ok x
  | none => .error (.unknownVariant s)

/-- One of finitely many values: its tag alone, or an object whose one key is the tag and whose
value is void. -/
def oneOfWith {τ : Type} (isVoid : Json → Bool) (all : List τ) (tag : τ → String) : Decoder τ
  | .str s => ofTag all tag s
  | .obj [(s, value)] =>
    match ofTag all tag s with
    | .error f => .error f
    | .ok x => if isVoid value then .ok x else .error .wrongShape
  | _ => .error .wrongShape

/-- A tag is read as its value when no value before it has the tag. -/
theorem oneOfWith_tag {τ : Type} (isVoid : Json → Bool) {all : List τ} {tag : τ → String} {x : τ}
    (h : (all.find? fun y => tag y == tag x) = some x) :
    oneOfWith isVoid all tag (.str (tag x)) = .ok x := by
  simp [oneOfWith, ofTag, h]

def isNull : Json → Bool
  | .null => true
  | _ => false

/-- Null, or an object without members. -/
def isNullOrBare : Json → Bool
  | .null => true
  | .obj [] => true
  | _ => false

/-- One of finitely many values; beside the tag in an object stands null. -/
def oneOf {τ : Type} : List τ → (τ → String) → Decoder τ := oneOfWith isNull

/-- One of finitely many values inside a tagged record, where an object without members may stand
in for null. -/
def oneOfInTagged {τ : Type} : List τ → (τ → String) → Decoder τ := oneOfWith isNullOrBare

end TableSteps.Wire
