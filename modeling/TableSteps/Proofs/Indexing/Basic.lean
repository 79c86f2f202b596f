import TableSteps.Proofs.Outcome

/-! # Evaluation that reads lists by position

A list that is read by position can be read past its end. Here that is an outcome of its own, apart
from every error that a step reports: `item` answers with `OutOfBounds`, and nothing catches it. A
definition over `item` that comes out as `settle x` has read no position past an end, on the way to
a success or to an error.

`Indexed` is for what cannot fail otherwise, `Guarded` for what can. -/

namespace TableSteps

/-- A position that a list does not have. -/
structure OutOfBounds where
  position : Nat
  length : Nat

/-- A value, unless a position was out of bounds. -/
abbrev Indexed (τ : Type) := Except OutOfBounds τ

/-- A value or an error, unless a position was out of bounds. -/
abbrev Guarded (ε τ : Type) := ExceptT ε Indexed τ

namespace Indexed

variable {β γ : Type}

/-- The item at a position. -/
def item (xs : List β) (i : Nat) : Indexed β :=
  match xs[i]? with
  | some x => .ok x
  | none => .error ⟨i, xs.length⟩

/-- The list with another item at a position. -/
def setItem (xs : List β) (i : Nat) (x : β) : Indexed (List β) :=
  if i < xs.length then .ok (xs.set i x) else .error ⟨i, xs.length⟩

theorem item_eq_ok {xs : List β} {i : Nat} {x : β} (h : xs[i]? = some x) : item xs i = .ok x := by
  simp [item, h]

theorem item_of_lt {xs : List β} {i : Nat} (h : i < xs.length) : item xs i = .ok xs[i] :=
  item_eq_ok (List.getElem?_eq_getElem h)

theorem item_getD {xs : List β} {i : Nat} (h : i < xs.length) (d : β) :
    item xs i = .ok (xs.getD i d) := by
  rw [item_of_lt h, List.getD_eq_getElem?_getD, List.getElem?_eq_getElem h, Option.getD_some]

theorem setItem_of_lt {xs : List β} {i : Nat} (h : i < xs.length) (x : β) :
    setItem xs i x = .ok (xs.set i x) := by
  simp [setItem, h]

/-! ## Lists -/

theorem mapM_eq_ok {f : β → Indexed γ} {g : β → γ} {xs : List β} (h : ∀ x ∈ xs, f x = .ok (g x)) :
    xs.mapM f = .ok (xs.map g) := by
  induction xs with
  | nil => rfl
  | cons x rest ih =>
    rw [List.mapM_cons, h x List.mem_cons_self, ih fun y hy => h y (List.mem_cons_of_mem _ hy)]
    rfl

theorem foldlM_eq_ok {f : γ → β → Indexed γ} {g : γ → β → γ} {xs : List β} (Inv : γ → Prop)
    (h : ∀ s x, x ∈ xs → Inv s → f s x = .ok (g s x) ∧ Inv (g s x)) :
    ∀ {s : γ}, Inv s → xs.foldlM f s = .ok (xs.foldl g s) ∧ Inv (xs.foldl g s) := by
  induction xs with
  | nil => exact fun hs => ⟨rfl, hs⟩
  | cons x rest ih =>
    intro s hs
    obtain ⟨hx, hinv⟩ := h s x List.mem_cons_self hs
    rw [List.foldlM_cons, hx, ok_bind, List.foldl_cons]
    exact ih (fun s y hy => h s y (List.mem_cons_of_mem _ hy)) hinv

/-- The items that pass a test, in order. -/
def keep (test : β → Indexed Bool) : List β → Indexed (List β)
  | [] => .ok []
  | x :: rest => do
    let passes ← test x
    let kept ← keep test rest
    pure (if passes then x :: kept else kept)

theorem keep_eq_ok {test : β → Indexed Bool} {p : β → Bool} {xs : List β}
    (h : ∀ x ∈ xs, test x = .ok (p x)) : keep test xs = .ok (xs.filter p) := by
  induction xs with
  | nil => rfl
  | cons x rest ih =>
    rw [keep, h x List.mem_cons_self, ih fun y hy => h y (List.mem_cons_of_mem _ hy)]
    cases hx : p x <;> simp [hx]

end Indexed

namespace Guarded

variable {ε ε' σ τ : Type}

/-- An outcome for which no position was out of bounds. -/
def settle (x : Except ε τ) : Guarded ε τ := ExceptT.mk (.ok x)

/-- A value that takes reading by position. -/
def look (x : Indexed τ) : Guarded ε τ := ExceptT.mk (x.map .ok)

/-- Another error in place of an error; a position out of bounds stays one. -/
def mapError (f : ε → ε') (x : Guarded ε τ) : Guarded ε' τ := ExceptT.mk (x.run.map (·.mapError f))

@[simp] theorem look_ok (v : τ) : look (.ok v) = (settle (.ok v) : Guarded ε τ) := rfl

@[simp] theorem settle_ok_bind (v : σ) (f : σ → Guarded ε τ) : (settle (.ok v) >>= f) = f v := rfl

@[simp] theorem mapError_settle (f : ε → ε') (x : Except ε τ) :
    mapError f (settle x) = settle (x.mapError f) := rfl

/-- A chain is settled when its first part is, and the rest for every value of the first part. -/
theorem settle_bind {x : Except ε σ} {f : σ → Except ε τ} {g : σ → Guarded ε τ}
    (h : ∀ v, x = .ok v → g v = settle (f v)) : (settle x >>= g) = settle (x >>= f) := by
  cases x with
  | error e => rfl
  | ok v => exact h v rfl

@[simp] theorem settle_bind_settle (x : Except ε σ) (f : σ → Except ε τ) :
    (settle x >>= fun v => settle (f v)) = settle (x >>= f) := settle_bind fun _ _ => rfl

end Guarded
end TableSteps
