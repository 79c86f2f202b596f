import TableSteps.Proofs.ListPairs
import TableSteps.Proofs.Step.Lookup

/-! # Two scopes side by side

Two evaluations of the same entries define the same names in the same order. What they give the
names is related: `Paired` says how, and every use of a scope keeps it. -/

namespace TableSteps.Scope

variable {β γ : Type} {R : β → γ → Prop} {s : Scope β} {s' : Scope γ}

/-- The same names, with related results. -/
def Paired (R : β → γ → Prop) (s : Scope β) (s' : Scope γ) : Prop :=
  List.Forall₂ (fun e e' => e.1 = e'.1 ∧ R e.2 e'.2) s.entries s'.entries

theorem Paired.empty : Paired R .empty .empty := List.Forall₂.nil

theorem Paired.names_eq (h : Paired R s s') : s.names = s'.names := by
  exact map_eq_map_iff_forall₂.mpr (h.imp fun _ _ he => he.1)

theorem Paired.get? (h : Paired R s s') (name : String) :
    Option.Rel R (s.get? name) (s'.get? name) := by
  obtain ⟨entries⟩ := s
  obtain ⟨entries'⟩ := s'
  change List.Forall₂ _ entries entries' at h
  unfold Scope.get?
  induction h with
  | nil => exact .none
  | @cons e e' rest rest' he _ ih =>
    obtain ⟨k, v⟩ := e
    obtain ⟨_, v'⟩ := e'
    obtain ⟨rfl, hv⟩ := he
    rw [List.lookup_cons, List.lookup_cons]
    cases name == k with
    | true => exact .some hv
    | false => exact ih

theorem Paired.find (h : Paired R s s') (place : Place) (name : String) :
    Alike R (s.find place name) (s'.find place name) := by
  have hname := h.get? name
  unfold Scope.find
  generalize s.get? name = v, s'.get? name = v' at hname
  cases hname with
  | none => exact .error _ _
  | some hv => exact .ok hv

theorem Paired.pair (h : Paired R s s') (place : Place) (left right : String) :
    Alike (fun v v' => R v.1 v'.1 ∧ R v.2 v'.2) (s.pair place left right)
      (s'.pair place left right) := by
  have hleft := h.find place left
  have hright := h.find place right
  unfold Scope.pair
  generalize s.find place left = x, s'.find place left = x' at hleft
  generalize s.find place right = y, s'.find place right = y' at hright
  cases hleft with
  | error e e' => exact .error e e'
  | ok hx =>
    cases hright with
    | error e e' => exact .error e e'
    | ok hy => exact .ok ⟨hx, hy⟩

theorem Paired.define (h : Paired R s s') (place : Place) (name : String) {v : β} {v' : γ}
    (hv : R v v') :
    Alike (Paired R) ((s.define name v).mapError (StepError.moveTo place))
      ((s'.define name v').mapError (StepError.moveTo place)) := by
  unfold Scope.define contains
  rw [h.names_eq]
  split
  · exact .error _ _
  · exact .ok (List.rel_append h (.cons ⟨rfl, hv⟩ .nil))

end TableSteps.Scope
