import TableSteps.Step.Error

/-! # Scopes of named results

The entries of an aggregation and the formulas of a summary give their results names, and a later
entry may use the names that stand before it. A scope holds them in the order of their entries; a
name is given once. -/

namespace TableSteps

structure Scope (β : Type) where
  entries : List (String × β)

namespace Scope

variable {β : Type}

def empty : Scope β := ⟨[]⟩

def names (s : Scope β) : List String := s.entries.map Prod.fst

def get? (s : Scope β) (name : String) : Option β := s.entries.lookup name

def contains (s : Scope β) (name : String) : Bool := s.names.contains name

/-- Adds a result under a new name. -/
def define (s : Scope β) (name : String) (value : β) : Checked (Scope β) :=
  if s.contains name then refuse (.root "name") (.redefinedName name)
  else .ok ⟨s.entries ++ [(name, value)]⟩

/-- The result under a name that an entry at some place uses. -/
def find (s : Scope β) (place : Place) (name : String) : Checked β :=
  match s.get? name with
  | some value => .ok value
  | none => refuse place (.undefinedName name s.names)

/-- Both operands of a combined entry; the left one is looked for first. -/
def pair (s : Scope β) (place : Place) (left right : String) : Checked (β × β) :=
  match s.find place left with
  | .error e => .error e
  | .ok x =>
    match s.find place right with
    | .error e => .error e
    | .ok y => .ok (x, y)

/-! ## Names in scope -/

theorem contains_iff {s : Scope β} {name : String} : s.contains name = true ↔ name ∈ s.names := by
  simp [contains]

/-- A name has a result exactly when it is in scope. -/
theorem isSome_get? (s : Scope β) (name : String) : (s.get? name).isSome = s.contains name := by
  obtain ⟨entries⟩ := s
  induction entries with
  | nil => rfl
  | cons e rest ih =>
    obtain ⟨k, v⟩ := e
    simp only [get?, contains, names, List.map_cons, List.contains_cons, List.lookup_cons] at ih ⊢
    cases name == k
    · exact ih
    · rfl

/-- A new name stands behind all others, and no name can be given again. -/
theorem define_eq_ok_iff {s u : Scope β} {name : String} {value : β} :
    s.define name value = .ok u ↔ name ∉ s.names ∧ u = ⟨s.entries ++ [(name, value)]⟩ := by
  simp only [define, refuse]
  split
  · rename_i h
    simp [contains_iff.mp h]
  · rename_i h
    simp only [contains_iff] at h
    simp [h, eq_comm]

theorem names_define {s u : Scope β} {name : String} {value : β}
    (h : s.define name value = .ok u) : u.names = s.names ++ [name] := by
  obtain ⟨-, rfl⟩ := define_eq_ok_iff.mp h
  simp [names]

theorem nodup_names_define {s u : Scope β} {name : String} {value : β} (hs : s.names.Nodup)
    (h : s.define name value = .ok u) : u.names.Nodup := by
  rw [names_define h]
  refine List.nodup_append.mpr ⟨hs, by simp, fun a ha b hb hab => ?_⟩
  exact (define_eq_ok_iff.mp h).1 (by rw [← List.mem_singleton.mp hb, ← hab]; exact ha)

end Scope
end TableSteps
