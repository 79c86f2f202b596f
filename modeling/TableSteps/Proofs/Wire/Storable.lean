import TableSteps.Proofs.Finite.Basic
import TableSteps.Proofs.Wire.Record

/-! # What decoders make of storable documents

`Gives` says what holds of every value that a decoder makes of a document JSON can hold. It is built
up as decoders are: a list from its items, a record from its fields, a choice from its variants. -/

namespace TableSteps.Wire

variable {σ τ : Type} {P : τ → Prop} {Q : σ → Prop}

/-- Every value that the decoder makes of a storable document has the property. -/
def Gives (d : Decoder τ) (P : τ → Prop) : Prop := ∀ j v, j.Storable → d j = .ok v → P v

/-- All fields that are present are storable. -/
def Present.Storable (p : Present) : Prop := ∀ name j, p.get? name = some j → j.Storable

/-- Every value that is made of storable fields has the property. -/
def Record.Gives (r : Record τ) (P : τ → Prop) : Prop :=
  ∀ p v, p.Storable → r.read p = .ok v → P v

namespace Gives

theorem items {d : Decoder τ} {js : List Json} {xs : List τ} (h : Wire.items d js = .ok xs) :
    ∀ x ∈ xs, ∃ j ∈ js, d j = .ok x := by
  induction js generalizing xs with
  | nil =>
    cases h
    simp
  | cons j rest ih =>
    rw [Wire.items] at h
    split at h
    · cases h
    · rename_i x hx
      split at h
      · cases h
      · rename_i ys hys
        cases h
        intro y hy
        rcases List.mem_cons.mp hy with rfl | hy
        · exact ⟨j, List.mem_cons_self, hx⟩
        · obtain ⟨j', hj', hy⟩ := ih hys y hy
          exact ⟨j', List.mem_cons_of_mem _ hj', hy⟩

theorem list {d : Decoder τ} (h : Gives d P) : Gives (Wire.list d) fun xs => ∀ x ∈ xs, P x := by
  intro j xs hj hxs x hx
  cases hj with
  | arr hitems =>
    obtain ⟨j', hj', hx⟩ := items hxs x hx
    exact h j' x (hitems j' hj') hx
  | null | bool | int | float | str | obj => cases hxs

theorem nullable {d : Decoder τ} (h : Gives d P) :
    Gives (Wire.nullable d) fun x => ∀ v, x = some v → P v := by
  intro j x hj hx v hv
  subst hv
  cases j with
  | null => cases hx
  | bool | int | float | str | arr | obj =>
    obtain ⟨w, hw, heq⟩ := map_eq_ok_iff.mp hx
    cases heq
    exact h _ v hj hw

theorem dictionary {d : Decoder τ} (h : Gives d P) :
    Gives (Wire.dictionary d) fun members => ∀ name x, members.get? name = some x → P x := by
  intro j members hj hmembers name x hx
  cases hj with
  | @obj fields hfields =>
    simp only [Wire.dictionary, values] at hmembers
    split at hmembers
    · cases hmembers
    · rename_i xs hxs
      cases hmembers
      obtain ⟨j', hj', hx⟩ := items hxs x (List.of_mem_zip (Dictionary.mem_of_get?_ofList hx)).2
      obtain ⟨⟨key, j'⟩, hentry, rfl⟩ := List.mem_map.mp hj'
      refine h j' x (hfields (key, j') (Dictionary.mem_of_get?_ofList ?_)) hx
      exact Dictionary.get?_of_mem hentry
  | null | bool | int | float | str | arr => cases hmembers

end Gives

namespace Record.Gives

theorem trivial (r : Record τ) : r.Gives fun _ => True := fun _ _ _ _ => True.intro

theorem map {x : Record σ} {f : σ → τ} (hx : x.Gives Q) (hf : ∀ w, Q w → P (f w)) :
    (f <$> x).Gives P := by
  intro p v hp hv
  rw [read_map] at hv
  obtain ⟨w, hw, rfl⟩ := map_eq_ok_iff.mp hv
  exact hf w (hx p w hp hw)

theorem seq {f : Record (σ → τ)} {x : Record σ} (hf : f.Gives fun g => ∀ w, Q w → P (g w))
    (hx : x.Gives Q) : (f <*> x).Gives P := by
  intro p v hp hv
  obtain ⟨g, w, hg, hw, rfl⟩ := read_seq_eq_ok_iff.mp hv
  exact hf p g hp hg w (hx p w hp hw)

theorem field {name : String} {d : Decoder τ} {absent short : Option τ} (h : Wire.Gives d P)
    (habsent : ∀ v, absent = some v → P v) (hshort : ∀ v, short = some v → P v) :
    (Record.field name d absent short).Gives P := by
  intro p v hp hv
  simp only [Record.field] at hv
  split at hv
  · rename_i j hj
    split at hv
    · rename_i hx
      cases hv
      exact h j v (hp name j hj) hx
    · cases hv
  · split at hv
    · rename_i hx
      cases hv
      split at hx
      · exact hshort v hx
      · exact habsent v hx
    · cases hv

theorem required {name : String} {d : Decoder τ} (h : Wire.Gives d P) :
    (Record.required name d).Gives P :=
  field h (fun _ hv => by cases hv) fun _ hv => by cases hv

theorem defaulted {name : String} {d : Decoder τ} {value : τ} (h : Wire.Gives d P)
    (hvalue : P value) : (Record.defaulted name d value).Gives P :=
  field h (fun _ hv => by cases hv; exact hvalue) fun _ hv => by cases hv; exact hvalue

theorem ofMembers {r : Record τ} {members : Dictionary Json} {v : τ} (h : r.Gives P)
    (hmembers : ∀ name j, members.get? name = some j → j.Storable)
    (hv : r.ofMembers members = .ok v) : P v :=
  h ⟨members.get?, false⟩ v hmembers (mapError_eq_ok_iff.mp hv)

theorem ofItems {r : Record τ} {items : List Json} {v : τ} (h : r.Gives P)
    (hitems : ∀ j ∈ items, j.Storable) (hv : r.ofItems items = .ok v) : P v := by
  simp only [Record.ofItems] at hv
  split at hv
  · cases hv
  · rename_i hw
    split at hv
    · cases hv
      refine h _ v (fun name j hj => hitems j ?_) hw
      exact (List.of_mem_zip (Dictionary.mem_of_lookup hj)).2
    · cases hv

theorem decode {r : Record τ} (h : r.Gives P) : Wire.Gives r.decode P := by
  intro j v hj hv
  cases hj with
  | obj hfields =>
    exact h.ofMembers (fun name j hj => hfields _ (Dictionary.mem_of_get?_ofList hj)) hv
  | arr hitems => exact h.ofItems hitems hv
  | null | bool | int | float | str => cases hv

theorem tagged {key : String} {variants : List (String × Record τ)}
    (h : ∀ variant ∈ variants, variant.2.Gives P) :
    Wire.Gives (Record.tagged key variants) P := by
  intro j v hj hv
  unfold Record.tagged at hv
  cases hj with
  | @obj fields hfields =>
    simp only at hv
    split at hv
    · cases hv
    · split at hv
      · rename_i r hr
        refine (h _ (Dictionary.mem_of_lookup hr)).ofMembers (fun name j hj => ?_) hv
        rw [Dictionary.get?_erase] at hj
        split at hj
        · cases hj
        · exact hfields _ (Dictionary.mem_of_get?_ofList hj)
      · cases hv
    · cases hv
  | @arr items hitems =>
    rcases items with _ | ⟨first, rest⟩
    · cases hv
    · cases first with
      | str tag =>
        simp only at hv
        split at hv
        · rename_i r hr
          exact (h _ (Dictionary.mem_of_lookup hr)).ofItems
            (fun j hj => hitems j (List.mem_cons_of_mem _ hj)) hv
        · cases hv
      | null | bool | int | float | arr | obj => cases hv
  | null | bool | int | float | str => cases hv

end Record.Gives
end TableSteps.Wire
