import TableSteps.Filter.Run

/-! # Outcomes with warnings

Warnings stay with an outcome whether it is a success or an error. -/

namespace TableSteps

structure Logged (τ : Type) where
  warnings : List Warning
  outcome : Checked τ

namespace Logged

variable {σ τ : Type}

/-- An outcome without warnings. -/
def silent (outcome : Checked τ) : Logged τ := ⟨[], outcome⟩

/-- Goes on with a success; the warnings of both parts stay, in order. -/
def andThen (x : Logged σ) (f : σ → Logged τ) : Logged τ :=
  match x.outcome with
  | .error e => ⟨x.warnings, .error e⟩
  | .ok v => ⟨x.warnings ++ (f v).warnings, (f v).outcome⟩

@[simp] theorem silent_ok_andThen (v : σ) (f : σ → Logged τ) :
    (silent (.ok v)).andThen f = f v := rfl

@[simp] theorem silent_error_andThen (e : StepError) (f : σ → Logged τ) :
    (silent (.error e)).andThen f = silent (.error e) := rfl

theorem andThen_assoc {ρ : Type} (x : Logged ρ) (f : ρ → Logged σ) (g : σ → Logged τ) :
    (x.andThen f).andThen g = x.andThen fun v => (f v).andThen g := by
  obtain ⟨ws, outcome⟩ := x
  cases outcome with
  | error e => rfl
  | ok v =>
    simp only [andThen]
    cases h : (f v).outcome <;> simp [List.append_assoc]

def mapError (f : StepError → StepError) (x : Logged τ) : Logged τ :=
  { x with outcome := x.outcome.mapError f }

end Logged
end TableSteps
