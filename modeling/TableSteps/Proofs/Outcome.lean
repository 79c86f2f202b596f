import TableSteps.Step.Logged

/-! # Outcomes taken apart

A check or a run is a chain of parts, each of which may fail. Where the outcome of a part is known
the chain goes on or stops; the other laws go back, from the outcome of a chain to its parts: a
success says that all parts succeeded, an error which part it came from.

Two runs of one program over inputs that resemble each other are compared by `Alike`: part by part,
neither goes further than the other. -/

namespace TableSteps

variable {ε ε' σ τ : Type}

/-! ## Forward -/

@[simp] theorem ok_bind (x : σ) (f : σ → Except ε τ) : (Except.ok x >>= f) = f x := rfl

@[simp] theorem error_bind (e : ε) (f : σ → Except ε τ) :
    ((Except.error e : Except ε σ) >>= f) = .error e := rfl

@[simp] theorem pure_eq_ok (x : τ) : (pure x : Except ε τ) = .ok x := rfl

@[simp] theorem ok_map (x : σ) (f : σ → τ) : (Except.ok x : Except ε σ).map f = .ok (f x) := rfl

@[simp] theorem error_map (e : ε) (f : σ → τ) :
    (Except.error e : Except ε σ).map f = .error e := rfl

@[simp] theorem ok_mapError (f : ε → ε') (x : τ) : (Except.ok x).mapError f = .ok x := rfl

@[simp] theorem error_mapError (f : ε → ε') (e : ε) :
    (Except.error e : Except ε τ).mapError f = .error (f e) := rfl

/-! ## Back -/

theorem bind_eq_ok_iff {x : Except ε σ} {f : σ → Except ε τ} {y : τ} :
    (x >>= f) = .ok y ↔ ∃ v, x = .ok v ∧ f v = .ok y := by
  cases x <;> simp

theorem bind_eq_error_iff {x : Except ε σ} {f : σ → Except ε τ} {e : ε} :
    (x >>= f) = .error e ↔ x = .error e ∨ ∃ v, x = .ok v ∧ f v = .error e := by
  cases x <;> simp

theorem map_eq_ok_iff {x : Except ε σ} {f : σ → τ} {y : τ} :
    x.map f = .ok y ↔ ∃ v, x = .ok v ∧ f v = y := by
  cases x <;> simp

theorem map_eq_error_iff {x : Except ε σ} {f : σ → τ} {e : ε} :
    x.map f = .error e ↔ x = .error e := by
  cases x <;> simp

theorem mapError_eq_ok_iff {x : Except ε τ} {f : ε → ε'} {y : τ} :
    x.mapError f = .ok y ↔ x = .ok y := by
  cases x <;> simp

theorem mapError_eq_error_iff {x : Except ε τ} {f : ε → ε'} {e : ε'} :
    x.mapError f = .error e ↔ ∃ e', x = .error e' ∧ f e' = e := by
  cases x <;> simp

/-- A check has nothing to tell but that it passed. -/
theorem check_bind_eq_ok_iff {x : Except ε Unit} {f : Unit → Except ε τ} {y : τ} :
    (x >>= f) = .ok y ↔ x = .ok () ∧ f () = .ok y := by
  cases x <;> simp

theorem ite_refuse_eq_ok_iff {p : Prop} [Decidable p] {place : Place} {cause : Cause}
    {x : Checked τ} {y : τ} :
    (if p then x else refuse place cause) = .ok y ↔ p ∧ x = .ok y := by
  by_cases h : p <;> simp [h, refuse]

/-! ## With warnings -/

namespace Logged

theorem outcome_andThen_eq_ok_iff {x : Logged σ} {f : σ → Logged τ} {y : τ} :
    (x.andThen f).outcome = .ok y ↔ ∃ v, x.outcome = .ok v ∧ (f v).outcome = .ok y := by
  unfold andThen
  cases x.outcome <;> simp

theorem andThen_silent_ok (x : Logged τ) : (x.andThen fun v => silent (.ok v)) = x := by
  obtain ⟨warnings, _ | v⟩ := x <;> simp [andThen, silent]

theorem warnings_andThen {x : Logged σ} {v : σ} (h : x.outcome = .ok v) (f : σ → Logged τ) :
    (x.andThen f).warnings = x.warnings ++ (f v).warnings := by
  rw [andThen, h]

theorem warnings_andThen_silent (x : Logged σ) (f : σ → τ) :
    (x.andThen fun v => silent (.ok (f v))).warnings = x.warnings := by
  obtain ⟨warnings, _ | v⟩ := x <;> simp [andThen, silent]

theorem mapError_andThen (f : StepError → StepError) (x : Logged σ) (g : σ → Logged τ) :
    (x.andThen g).mapError f = (x.mapError f).andThen fun v => (g v).mapError f := by
  obtain ⟨warnings, _ | v⟩ := x <;> rfl

theorem mapError_mapError (f g : StepError → StepError) (x : Logged τ) :
    (x.mapError f).mapError g = x.mapError fun e => g (f e) := by
  obtain ⟨warnings, _ | v⟩ := x <;> rfl

/-- An error comes from the first part, or from the second after the first has succeeded. -/
theorem outcome_andThen_eq_error_iff {x : Logged σ} {f : σ → Logged τ} {e : StepError} :
    (x.andThen f).outcome = .error e ↔
      x.outcome = .error e ∨ ∃ v, x.outcome = .ok v ∧ (f v).outcome = .error e := by
  unfold andThen
  cases x.outcome <;> simp

theorem outcome_mapError_eq_error_iff {x : Logged τ} {f : StepError → StepError} {e : StepError} :
    (x.mapError f).outcome = .error e ↔ ∃ e', x.outcome = .error e' ∧ f e' = e :=
  TableSteps.mapError_eq_error_iff

theorem outcome_mapError_eq_ok_iff {x : Logged τ} {f : StepError → StepError} {v : τ} :
    (x.mapError f).outcome = .ok v ↔ x.outcome = .ok v :=
  TableSteps.mapError_eq_ok_iff

end Logged

/-! ## Side by side -/

/-- Both fail, with errors that may differ, or both succeed with related values. -/
inductive Alike (P : σ → τ → Prop) : Except ε σ → Except ε τ → Prop where
  | error (e e' : ε) : Alike P (.error e) (.error e')
  | ok {v : σ} {w : τ} (h : P v w) : Alike P (.ok v) (.ok w)

namespace Alike

variable {σ' τ' : Type} {P : σ → τ → Prop} {Q : σ' → τ' → Prop} {x : Except ε σ} {y : Except ε τ}

theorem bind {f : σ → Except ε σ'} {g : τ → Except ε τ'} (h : Alike P x y)
    (hf : ∀ v w, P v w → Alike Q (f v) (g w)) : Alike Q (x >>= f) (y >>= g) := by
  cases h with
  | error e e' => exact .error e e'
  | ok h => exact hf _ _ h

theorem map {f : σ → σ'} {g : τ → τ'} (h : Alike P x y) (hf : ∀ v w, P v w → Q (f v) (g w)) :
    Alike Q (x.map f) (y.map g) := by
  cases h with
  | error e e' => exact .error e e'
  | ok h => exact .ok (hf _ _ h)

theorem mapError {f g : ε → ε'} (h : Alike P x y) : Alike P (x.mapError f) (y.mapError g) := by
  cases h with
  | error e e' => exact .error _ _
  | ok h => exact .ok h

theorem mono {P' : σ → τ → Prop} (h : Alike P x y) (hP : ∀ v w, P v w → P' v w) :
    Alike P' x y := by
  cases h with
  | error e e' => exact .error e e'
  | ok h => exact .ok (hP _ _ h)

/-- The values that are related are those of the two outcomes. -/
theorem attach (h : Alike P x y) : Alike (fun v w => x = .ok v ∧ y = .ok w ∧ P v w) x y := by
  cases h with
  | error e e' => exact .error e e'
  | ok hvw => exact .ok ⟨rfl, rfl, hvw⟩

theorem exists_right {v : σ} (h : Alike P (.ok v) y) : ∃ w, y = .ok w ∧ P v w := by
  cases h with
  | ok hvw => exact ⟨_, rfl, hvw⟩

theorem exists_left {w : τ} (h : Alike P x (.ok w)) : ∃ v, x = .ok v ∧ P v w := by
  cases h with
  | ok hvw => exact ⟨_, rfl, hvw⟩

/-- One outcome does not fail where the other does not, and what both give is related. -/
theorem of_eq_ok (h : ∀ v, x = .ok v → ∃ w, y = .ok w ∧ P v w)
    (h' : ∀ w, y = .ok w → ∃ v, x = .ok v) : Alike P x y := by
  cases hx : x with
  | ok v =>
    obtain ⟨w, hy, hvw⟩ := h v hx
    rw [hy]
    exact .ok hvw
  | error e =>
    cases hy : y with
    | error e' => exact .error e e'
    | ok w =>
      obtain ⟨v, hv⟩ := h' w hy
      cases hx.symm.trans hv

theorem refl {R : σ → σ → Prop} (hR : ∀ v, R v v) (x : Except ε σ) : Alike R x x := by
  cases x with
  | error e => exact .error e e
  | ok v => exact .ok (hR v)

end Alike

end TableSteps
