import TableSteps.Proofs.Step.Lookup

/-! # What errors point at

An error of a check or a run stands at an entry of the config. When it says that a name was looked
up in vain it also tells the names that could have stood there, and the name is none of them. Which
names these are is given by a relation, one for each kind of step; `Points` says that all errors of
a computation follow it, and goes through the ways in which computations are put together. -/

namespace TableSteps

/-- The name that was looked up in vain, and the names that are offered instead. -/
def Cause.offers? : Cause → Option (String × List String)
  | .unknownColumn name available => some (name, available)
  | .undefinedName name available => some (name, available)
  | .unresolvedOperand name available => some (name, available)
  | _ => none

namespace StepError

variable {e : StepError}

/-! ## What is shown of an error -/

/-- Only the place, the row and the number of the step are shown beside what the cause tells. -/
theorem get?_details_of_cause {key : String} (hfield : key ≠ "field") (hrow : key ≠ "row")
    (hstep : key ≠ "step_index") :
    e.details.get? key = e.cause.details.reverse.lookup key := by
  obtain ⟨cause, place, row, stepIndex⟩ := e
  cases place <;> cases row <;> cases stepIndex <;>
    simp [details, Dictionary.get?_ofList, List.lookup_cons, beq_eq_false_iff_ne.mpr, hfield, hrow,
      hstep]

theorem get?_details_field {place : Place} (h : e.place = some place) :
    e.details.get? "field" = some (.str place.path) := by
  obtain ⟨cause, _, row, stepIndex⟩ := e
  cases h
  cases row <;> cases stepIndex <;>
    simp [details, Dictionary.get?_ofList, List.lookup_cons]

theorem get?_details_available :
    e.details.get? "available" = e.cause.offers?.map fun offer => .strings offer.2 := by
  rw [get?_details_of_cause (by decide) (by decide) (by decide)]
  cases e.cause <;> simp [Cause.details, Cause.offers?, List.lookup_cons]

theorem get?_details_value {name : String} {names : List String}
    (h : e.cause.offers? = some (name, names)) : e.details.get? "value" = some (.str name) := by
  rw [get?_details_of_cause (by decide) (by decide) (by decide)]
  cases hcause : e.cause <;> rw [hcause] at h <;> cases h <;>
    simp [Cause.details, List.lookup_cons]

end StepError

/-! ## Errors that follow a relation -/

/-- Says of a place of a config that a name is looked up there among some names. -/
abbrev LookUps := Place → String → List String → Prop

/-- The error stands at a place, and the names it offers there are those that its name was looked
up among in vain. -/
structure StepError.Follows (looksUp : LookUps) (e : StepError) : Prop where
  unnumbered : e.stepIndex = none
  placed : ∃ place, e.place = some place ∧ ∀ name names, e.cause.offers? = some (name, names) →
    looksUp place name names ∧ name ∉ names

/-- All errors of a computation follow the relation. -/
def Points {τ : Type} (looksUp : LookUps) (x : Checked τ) : Prop :=
  ∀ e, x = .error e → e.Follows looksUp

namespace Points

variable {σ τ : Type} {looksUp : LookUps} {place : Place} {name : String} {names : List String}

theorem ok (v : τ) : Points looksUp (.ok v) := nofun

/-- A cause that offers no names can stand anywhere. -/
theorem plain {cause : Cause} (h : cause.offers? = none) :
    Points looksUp (refuse (τ := τ) place cause) := by
  rintro _ ⟨rfl⟩
  exact ⟨rfl, place, rfl, fun _ _ hoffer => nomatch h.symm.trans hoffer⟩

theorem offer {cause : Cause} (h : cause.offers? = some (name, names))
    (hlook : looksUp place name names) (hnot : name ∉ names) :
    Points looksUp (refuse (τ := τ) place cause) := by
  rintro _ ⟨rfl⟩
  refine ⟨rfl, place, rfl, fun name' names' hoffer => ?_⟩
  cases h.symm.trans hoffer
  exact ⟨hlook, hnot⟩

theorem bind {x : Checked σ} {f : σ → Checked τ} (hx : Points looksUp x)
    (hf : ∀ v, x = .ok v → Points looksUp (f v)) : Points looksUp (x >>= f) := by
  intro e he
  rcases bind_eq_error_iff.mp he with he | ⟨v, hv, he⟩
  · exact hx e he
  · exact hf v hv e he

theorem map {x : Checked σ} (hx : Points looksUp x) (f : σ → τ) : Points looksUp (x.map f) :=
  fun e he => hx e (map_eq_error_iff.mp he)

theorem ite {p : Prop} [Decidable p] {x y : Checked τ} (hx : p → Points looksUp x)
    (hy : ¬ p → Points looksUp y) : Points looksUp (if p then x else y) := by
  by_cases h : p
  · rw [if_pos h]
    exact hx h
  · rw [if_neg h]
    exact hy h

/-- A part that may be missing is checked if it is there. -/
theorem elim {ρ : Type} {x : Option ρ} {check : ρ → Checked Unit}
    (h : ∀ v, x = some v → Points looksUp (check v)) :
    Points looksUp (x.elim (.ok ()) check) := by
  cases x with
  | none => exact .ok ()
  | some v => exact h v rfl

/-! ## Walks over lists

A walk counts the items of a list and may carry a state. What holds of the state is told by the part
of the list that the walk has behind it, which is as long as the count. -/

section Walks

variable {ρ : Type} {all : List ρ}

theorem walkWith {walk : Nat → σ → List ρ → Checked τ} (holds : List ρ → σ → Prop)
    (hnil : ∀ i s, Points looksUp (walk i s []))
    (hcons : ∀ before x after s, all = before ++ x :: after → holds before s →
      (∀ u, holds (before ++ [x]) u → Points looksUp (walk (before.length + 1) u after)) →
      Points looksUp (walk before.length s (x :: after)))
    {s : σ} (hs : holds [] s) : Points looksUp (walk 0 s all) := by
  have hrest : ∀ (rest before : List ρ) (s : σ), all = before ++ rest → holds before s →
      Points looksUp (walk before.length s rest) := by
    intro rest
    -- The count and the state change along the walk, so both stay general.
    induction rest with
    | nil => exact fun before s _ _ => hnil before.length s
    | cons x after ih =>
      intro before s h hs
      refine hcons before x after s h hs fun u hu => ?_
      have hafter := ih (before ++ [x]) u (by simpa using h) hu
      rwa [List.length_append] at hafter
  exact hrest all [] s rfl hs

theorem walk {walk : Nat → List ρ → Checked τ} (hnil : ∀ i, Points looksUp (walk i []))
    (hcons : ∀ before x after, all = before ++ x :: after →
      Points looksUp (walk (before.length + 1) after) →
      Points looksUp (walk before.length (x :: after))) : Points looksUp (walk 0 all) := by
  have h : Points looksUp ((fun (i : Nat) (_ : Unit) => walk i) 0 () all) :=
    walkWith (s := ()) (fun _ _ => True) (fun i _ => hnil i)
      (fun before x after _ h _ hrest => hcons before x after h (hrest () trivial)) trivial
  exact h

end Walks

/-! ## Checks and look-ups shared by all kinds -/

theorem checkName : Points looksUp (TableSteps.checkName place name) :=
  .ite (fun _ => .plain rfl) fun _ => .ok ()

section Columns

variable {α : Type} {t : Table α} (h : looksUp place name t.columns)
include h

theorem checkColumn : Points looksUp (t.checkColumn place name) :=
  .ite (fun _ => .ok ()) fun hnot => .offer rfl h fun hmem => hnot (Table.hasColumn_iff.mpr hmem)

variable [Quantity α]

theorem checkNumeric : Points looksUp (t.checkNumeric place name) :=
  .bind (checkColumn h) fun _ _ => .ite (fun _ => .ok ()) fun _ => .plain rfl

theorem checkFor (needsNumbers : Bool) : Points looksUp (t.checkFor needsNumbers place name) := by
  cases needsNumbers with
  | true => exact checkNumeric h
  | false => exact checkColumn h

end Columns

section Scope

variable {β : Type} {s : Scope β}

theorem find (h : looksUp place name s.names) : Points looksUp (s.find place name) := by
  unfold Scope.find
  cases hget : s.get? name with
  | some v => exact .ok v
  | none =>
    refine .offer rfl h fun hmem => ?_
    rw [← Scope.contains_iff, ← Scope.isSome_get?, hget] at hmem
    cases hmem

theorem pair {left right : String}
    (h : ∀ name, name = left ∨ name = right → looksUp place name s.names) :
    Points looksUp (s.pair place left right) := by
  unfold Scope.pair
  cases hleft : s.find place left with
  | error e =>
    rintro _ ⟨rfl⟩
    exact find (h left (.inl rfl)) e hleft
  | ok x =>
    cases hright : s.find place right with
    | error e =>
      rintro _ ⟨rfl⟩
      exact find (h right (.inr rfl)) e hright
    | ok y => exact .ok _

/-- A name that is given twice stands where the name is given. -/
theorem define (v : β) : Points looksUp ((s.define name v).mapError (.moveTo place)) := by
  unfold Scope.define
  split
  · exact .plain rfl
  · exact .ok _

end Scope

end Points
end TableSteps
