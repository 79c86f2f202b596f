import Mathlib.Data.List.Forall2

/-! # Lists side by side

Two lists whose items are related one by one stay so under what a step does to a list: they are
sorted, zipped, numbered and changed in place. -/

namespace TableSteps

variable {β γ δ ε : Type} {R : β → γ → Prop} {S : δ → ε → Prop} {xs : List β} {ys : List γ}

theorem map_eq_map_iff_forall₂ {f : β → δ} {g : γ → δ} :
    xs.map f = ys.map g ↔ List.Forall₂ (fun x y => f x = g y) xs ys := by
  rw [← List.forall₂_eq_eq_eq, List.forall₂_map_left_iff, List.forall₂_map_right_iff]

theorem forall₂_map_map {f : β → δ} {g : β → ε} (h : ∀ x ∈ xs, S (f x) (g x)) :
    List.Forall₂ S (xs.map f) (xs.map g) := by
  rw [List.forall₂_map_left_iff, List.forall₂_map_right_iff]
  exact List.forall₂_same.mpr h

/-- Two lists that are related to a third one item by item are related to one another. -/
theorem forall₂_of_common {Q : β → δ → Prop} {T : γ → δ → Prop} {zs : List δ}
    (h : List.Forall₂ R xs ys) (h' : List.Forall₂ Q xs zs)
    (hRQ : ∀ x ∈ xs, ∀ y z, R x y → Q x z → T y z) : List.Forall₂ T ys zs := by
  induction h generalizing zs with
  | nil =>
    cases h'
    exact .nil
  | @cons x y _ _ hxy _ ih =>
    cases h' with
    | @cons _ z _ _ hxz hrest =>
      obtain ⟨hfirst, hothers⟩ := List.forall_mem_cons.mp hRQ
      exact .cons (hfirst y z hxy hxz) (ih hrest hothers)

theorem all_eq_of_forall₂ {p : β → Bool} {q : γ → Bool} (hpq : ∀ x y, R x y → p x = q y)
    (h : List.Forall₂ R xs ys) : xs.all p = ys.all q := by
  induction h with
  | nil => rfl
  | cons hxy _ ih => rw [List.all_cons, List.all_cons, hpq _ _ hxy, ih]

/-- Beyond the end of both lists stands a default. -/
theorem rel_getD (h : List.Forall₂ R xs ys) {x : β} {y : γ} (hxy : R x y) (i : Nat) :
    R (xs.getD i x) (ys.getD i y) := by
  induction h generalizing i with
  | nil => exact hxy
  | cons hfirst _ ih =>
    cases i with
    | zero => exact hfirst
    | succ i => exact ih i

theorem forall₂_modify {f : β → β} {g : γ → γ} (hfg : ∀ x y, R x y → R (f x) (g y))
    (h : List.Forall₂ R xs ys) (i : Nat) : List.Forall₂ R (xs.modify i f) (ys.modify i g) := by
  induction h generalizing i with
  | nil =>
    rw [List.modify_nil, List.modify_nil]
    exact .nil
  | cons hfirst hrest ih =>
    cases i with
    | zero => exact .cons (hfg _ _ hfirst) hrest
    | succ i => exact .cons hfirst (ih i)

theorem forall₂_zipIdx (h : List.Forall₂ R xs ys) (n : Nat) :
    List.Forall₂ (fun x y => R x.1 y.1 ∧ x.2 = y.2) (xs.zipIdx n) (ys.zipIdx n) := by
  induction h generalizing n with
  | nil => exact .nil
  | cons hxy _ ih => exact .cons ⟨hxy, rfl⟩ (ih (n + 1))

theorem forall₂_zipWith {σ τ : Type} {Q : σ → τ → Prop} {f : β → δ → σ} {g : γ → ε → τ}
    (hfg : ∀ x x' y y', R x x' → S y y' → Q (f x y) (g x' y')) (h : List.Forall₂ R xs ys)
    {zs : List δ} {zs' : List ε} (hz : List.Forall₂ S zs zs') :
    List.Forall₂ Q (xs.zipWith f zs) (ys.zipWith g zs') := by
  induction h generalizing zs zs' with
  | nil => exact .nil
  | cons hfirst _ ih =>
    cases hz with
    | nil => exact .nil
    | cons hother hrest => exact .cons (hfg _ _ _ _ hfirst hother) (ih hrest)

/-- Lists that are related item by item are related when each is sorted by its own keys, as long as
related items have keys that compare alike. -/
theorem forall₂_mergeSort {le : β → β → Bool} {le' : γ → γ → Bool}
    (hle : ∀ x x' y y', R x x' → R y y' → le x y = le' x' y') (h : List.Forall₂ R xs ys) :
    List.Forall₂ R (xs.mergeSort le) (ys.mergeSort le') := by
  obtain ⟨hlength, hzip⟩ := List.forall₂_iff_zip.mp h
  let pairs := xs.zip ys
  let both : β × γ → β × γ → Bool := fun x y => le x.1 y.1
  have hleft : (pairs.mergeSort both).map Prod.fst = xs.mergeSort le := by
    rw [List.map_mergeSort (f := Prod.fst) (s := le) (fun _ _ _ _ => rfl),
      List.map_fst_zip (Nat.le_of_eq hlength)]
  have hright : (pairs.mergeSort both).map Prod.snd = ys.mergeSort le' := by
    rw [List.map_mergeSort (f := Prod.snd) (s := le')
        (fun x hx y hy => hle x.1 x.2 y.1 y.2 (hzip hx) (hzip hy)),
      List.map_snd_zip (Nat.le_of_eq hlength.symm)]
  rw [← hleft, ← hright, List.forall₂_map_left_iff, List.forall₂_map_right_iff, List.forall₂_same]
  exact fun x hx => hzip (List.mem_mergeSort.mp hx)

end TableSteps
