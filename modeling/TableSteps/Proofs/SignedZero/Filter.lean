import TableSteps.Proofs.Filter.Adequacy
import TableSteps.Proofs.Filter.SideBySide
import TableSteps.Proofs.SignedZero.Basic

/-! # Filters and signed zeros

Categories, bounds, percentiles and joins take zeros of either sign for one. Percentiles do so
although the numbers are sorted in the total order, which puts one zero before the other: sorted
lists that agree before agree after. A ranking sorts rows in that order, and so it does tell the
zeros apart, in a column that has both. -/

namespace TableSteps

open Keyed (key)
open Quantity (Agree totalLe)
open SignedZeroLaws TotalOrderLaws

variable {α : Type} [WireQuantity α] [SignedZeroLaws α] {t u : Table α}

/-! ## Quantiles -/

/-- Sorting leaves the same keys in the same places. -/
theorem map_key_mergeSort {xs ys : List α} (h : List.Forall₂ Agree xs ys) :
    (xs.mergeSort totalLe).map key = (ys.mergeSort totalLe).map key := by
  have hsorted (zs : List α) : ((zs.mergeSort totalLe).map key).Pairwise
      fun a b => ∃ x y : α, key x = a ∧ key y = b ∧ totalLe x y = true := by
    have htotal : (zs.mergeSort totalLe).Pairwise fun x y => totalLe x y = true :=
      List.pairwise_mergeSort (fun x y z => totalLe_trans (x := x) (y := y) (z := z))
        totalLe_total zs
    exact List.pairwise_map.mpr (htotal.imp fun hle => ⟨_, _, rfl, rfl, hle⟩)
  have hkeys : xs.map key = ys.map key :=
    map_eq_map_iff_forall₂.mpr (h.imp fun _ _ => key_eq_key_iff.mpr)
  refine List.Perm.eq_of_pairwise ?_ (hsorted xs) (hsorted ys) ?_
  · rintro _ _ - - ⟨x, y, rfl, rfl, hle⟩ ⟨y', x', hy, hx, hge⟩
    have hxx' := key_eq_key_iff.mp hx.symm
    exact key_eq_key_iff.mpr (agree_of_totalLe hxx' (key_eq_key_iff.mp hy.symm) hle hge)
  · have hleft := (List.mergeSort_perm xs totalLe).map key
    have hright := (List.mergeSort_perm ys totalLe).map key
    rw [hkeys] at hleft
    exact hleft.trans hright.symm

theorem forall₂_agree_mergeSort {xs ys : List α} (h : List.Forall₂ Agree xs ys) :
    List.Forall₂ Agree (xs.mergeSort totalLe) (ys.mergeSort totalLe) :=
  (map_eq_map_iff_forall₂.mp (map_key_mergeSort h)).imp fun _ _ => key_eq_key_iff.mp

theorem rel_quantile? {xs ys : List α} (h : List.Forall₂ Agree xs ys) (percentile : α) :
    Option.Rel Agree (quantile? xs percentile) (quantile? ys percentile) := by
  cases h with
  | nil => exact .none
  | cons hfirst hrest =>
    have hget := rel_getD (.cons hfirst hrest) hfirst
    simp only [quantile?, hrest.length_eq]
    exact .some (agree_add (hget _) (agree_mul (agree_sub (hget _) (hget _)) (.refl _)))

omit [SignedZeroLaws α] in
theorem forall₂_numbers {cells cells' : List (Cell α)} (h : List.Forall₂ Cell.Agree cells cells') :
    List.Forall₂ Agree (cells.filterMap Cell.asNumber) (cells'.filterMap Cell.asNumber) :=
  List.rel_filterMap (fun _ _ hcell => hcell.asNumber) h

/-! ## Rankings -/

/-- Numbers are in the same order where neither side has two zeros to tell apart. -/
theorem totalLe_eq {x x' y y' : α} (hx : Agree x x') (hy : Agree y y') (h : Agree x y → x = y)
    (h' : Agree x' y' → x' = y') : totalLe x y = totalLe x' y' := by
  have hrefl (z : α) : totalLe z z = true := by simpa using totalLe_total z z
  have hkept {a a' b b' : α} (ha : Agree a a') (hb : Agree b b') (hab : ¬ Agree a b)
      (hle : totalLe a b = true) : totalLe a' b' = true := by
    by_contra hgt
    have hge : totalLe b' a' = true := by simpa [hgt] using totalLe_total a' b'
    exact hab (agree_of_totalLe ha hb hle hge)
  by_cases hxy : Agree x y
  · obtain rfl := h hxy
    obtain rfl := h' (hx.symm.trans hy)
    rw [hrefl, hrefl]
  · have hxy' : ¬ Agree x' y' := fun hagree => hxy ((hx.trans hagree).trans hy.symm)
    exact Bool.eq_iff_iff.mpr ⟨hkept hx hy hxy, hkept hx.symm hy.symm hxy'⟩

theorem ranksBefore_eq (ascending : Bool) {x? x'? y? y'? : Option α} (hx : Option.Rel Agree x? x'?)
    (hy : Option.Rel Agree y? y'?) (h : ∀ x y, x? = some x → y? = some y → Agree x y → x = y)
    (h' : ∀ x y, x'? = some x → y'? = some y → Agree x y → x = y) :
    ranksBefore ascending x? y? = ranksBefore ascending x'? y'? := by
  cases hx with
  | none => cases hy <;> rfl
  | @some x x' hx =>
    cases hy with
    | none => rfl
    | @some y y' hy =>
      have hxy := totalLe_eq hx hy (h x y rfl rfl) (h' x' y' rfl rfl)
      have hyx := totalLe_eq hy hx (fun hagree => (h x y rfl rfl hagree.symm).symm)
        fun hagree => (h' x' y' rfl rfl hagree.symm).symm
      simp only [ranksBefore, hxy, hyx]

/-- A column has zeros of both signs. -/
def Table.MixesZeros (t : Table α) (name : String) : Prop :=
  ∃ x y, some x ∈ t.numbers name ∧ some y ∈ t.numbers name ∧ Quantity.Agree x y ∧ x ≠ y

omit [SignedZeroLaws α] in
theorem Table.eq_of_not_mixesZeros {name : String} (h : ¬ t.MixesZeros name) {p : Nat}
    (hp : t.columnIndex? name = some p) {row row' : Row α} (hrow : row ∈ t.rows)
    (hrow' : row' ∈ t.rows) {x y : α} (hx : (cellAt row p).asNumber = some x)
    (hy : (cellAt row' p).asNumber = some y) (hxy : Quantity.Agree x y) : x = y := by
  have hnumbers : t.numbers name = t.rows.map fun row => (cellAt row p).asNumber := by
    simp [numbers, cells, columnValues?, hp, cellsAt, Function.comp_def]
  by_contra hne
  refine h ⟨x, y, ?_, ?_, hxy, hne⟩
  · exact hnumbers ▸ List.mem_map.mpr ⟨row, hrow, hx⟩
  · exact hnumbers ▸ List.mem_map.mpr ⟨row', hrow', hy⟩

/-! ## Conditions -/

namespace Filter

omit [WireQuantity α] [SignedZeroLaws α] in
theorem isSome_eq_of_rel {R : α → α → Prop} {x? y? : Option α} (h : Option.Rel R x? y?) :
    x?.isSome = y?.isSome := by
  cases h <;> rfl

omit [SignedZeroLaws α] in
theorem any_eq_of_rel {x? y? : Option α} {p q : α → Bool} (h : Option.Rel Agree x? y?)
    (hpq : ∀ x y, Agree x y → p x = q y) : x?.any p = y?.any q := by
  cases h with
  | none => rfl
  | some hxy => exact hpq _ _ hxy

theorem inside_eq {x y : α} (h : Agree x y) (min max : Option (Bound α)) :
    inside min max x = inside min max y := by
  have habove (b : Bound α) : Bound.isAbove b x = Bound.isAbove b y := by
    rw [Bound.isAbove, Bound.isAbove, Quantity.le_eq (.refl _) h, lt_eq (.refl _) h]
  have hbelow (b : Bound α) : Bound.isBelow b x = Bound.isBelow b y := by
    rw [Bound.isBelow, Bound.isBelow, Quantity.le_eq h (.refl _), lt_eq h (.refl _)]
  simp only [inside, habove, hbelow]

theorem inBand_eq {c d : Cell α} {cells cells' : List (Cell α)} (h : c.Agree d)
    (hcells : List.Forall₂ Cell.Agree cells cells') (low high : α) :
    inBand low high cells c = inBand low high cells' d := by
  have hsorted := forall₂_agree_mergeSort (forall₂_numbers hcells)
  have hlow := rel_quantile? hsorted low
  have hhigh := rel_quantile? hsorted high
  simp only [inBand]
  generalize (cells.filterMap Cell.asNumber).mergeSort totalLe = xs at hlow hhigh ⊢
  generalize (cells'.filterMap Cell.asNumber).mergeSort totalLe = ys at hlow hhigh ⊢
  generalize quantile? xs low = l?, quantile? ys low = l'? at hlow
  generalize quantile? xs high = r?, quantile? ys high = r'? at hhigh
  cases hlow with
  | none => rfl
  | some hlow =>
    cases hhigh with
    | none => rfl
    | some hhigh =>
      refine any_eq_of_rel h.asNumber fun x y hxy => ?_
      rw [Quantity.le_eq hlow hxy, Quantity.le_eq hxy hhigh]

theorem indistinct_agree : Indistinct (Cell.Agree : Cell α → Cell α → Prop) where
  key h := h.key_eq
  holds h := h.holds_eq
  readable h := by
    rw [h.isMissing_eq, isSome_eq_of_rel h.asNumber]
  inside h min max := any_eq_of_rel h.asNumber fun _ _ hxy => inside_eq hxy min max
  inBand := inBand_eq

/-! ## Tables -/

omit [SignedZeroLaws α] in
theorem sameReading_of_agree (h : t.Agree u) (name : String) :
    SameReading Cell.Agree (Table.Paired t u) t u name := by
  unfold SameReading
  rw [h.columnIndex?_eq]
  cases u.columnIndex? name with
  | none => exact .none
  | some p => exact .some fun row row' hrow => Cell.agree_cellAt hrow.2 p

/-- A ranking goes by a column with zeros of both signs, in one of the tables. -/
def TellsApart (config : Filter α) (t u : Table α) : Prop :=
  ∃ column count ascending, config.numeric = some (.top column count ascending) ∧
    (t.MixesZeros column ∨ u.MixesZeros column)

theorem sameRanking_of_not_mixesZeros (h : t.Agree u) {column : String}
    (ht : ¬ t.MixesZeros column) (hu : ¬ u.MixesZeros column) (count : Int) (ascending : Bool) :
    SameRanking (Table.Paired t u) t u (.top column count ascending) := by
  intro p p' hp hp' x x' y y' hx hy
  obtain rfl : p = p' := Option.some.inj (hp.symm.trans (h.columnIndex?_eq.trans hp'))
  have hrows {row row' : Row α} (hrow : Table.Paired t u row row') :
      row ∈ t.rows ∧ row' ∈ u.rows := List.of_mem_zip hrow.1
  refine ranksBefore_eq ascending (Cell.agree_cellAt hx.2 p).asNumber
    (Cell.agree_cellAt hy.2 p).asNumber (fun a b ha hb hab => ?_) fun a b ha hb hab => ?_
  · exact Table.eq_of_not_mixesZeros ht hp (hrows hx).1 (hrows hy).1 ha hb hab
  · exact Table.eq_of_not_mixesZeros hu hp' (hrows hx).2 (hrows hy).2 ha hb hab

theorem isNumericColumn_eq_of_agree (h : t.Agree u) (name : String) :
    t.isNumericColumn name = u.isNumericColumn name :=
  isNumericColumn_eq indistinct_agree (sameReading_of_agree h name) h.forall₂_paired

/-- A filter checks tables that agree alike. -/
theorem agree_check_iff {config : Filter α} (h : t.Agree u) :
    config.check (some t) .allowed = .ok () ↔ config.check (some u) .allowed = .ok () :=
  check_iff indistinct_agree (fun name _ => sameReading_of_agree h name) h.forall₂_paired

/-- A filter keeps the same rows of tables that agree, unless its ranking tells them apart. -/
theorem agree_run {config : Filter α} (references : References α) (h : t.Agree u)
    (htells : ¬ config.TellsApart t u) :
    Alike Table.Agree (config.run t references) (config.run u references) := by
  have hranking : ∀ filter, config.numeric = some filter →
      SameRanking (Table.Paired t u) t u filter := by
    intro filter hfilter
    cases filter with
    | range | band => trivial
    | top column count ascending =>
      have hunmixed : ¬ (t.MixesZeros column ∨ u.MixesZeros column) := fun hmixed =>
        htells ⟨column, count, ascending, hfilter, hmixed⟩
      obtain ⟨htmixed, humixed⟩ := not_or.mp hunmixed
      exact sameRanking_of_not_mixesZeros h htmixed humixed count ascending
  refine (alike_run indistinct_agree references (fun name _ => sameReading_of_agree h name)
    hranking h.forall₂_paired).mono fun v w hvw => ?_
  exact ⟨hvw.1.trans (h.columns.trans hvw.2.1.symm), hvw.2.2.imp fun _ _ hrow => hrow.2⟩

/-- A checked filter runs over both of two tables that agree, or over neither; what it keeps of them
agrees unless its ranking tells them apart. -/
theorem alike_of_check {config : Filter α} (references : References α) (h : t.Agree u)
    (ht : config.check (some t) .allowed = .ok ()) :
    Alike (fun v w => config.TellsApart t u ∨ v.Agree w) (config.run t references)
      (config.run u references) := by
  by_cases htells : config.TellsApart t u
  · by_cases hobstructed : config.Obstructed references
    · obtain ⟨e, he⟩ := run_of_obstructed (t := t) hobstructed
      obtain ⟨e', he'⟩ := run_of_obstructed (t := u) hobstructed
      rw [he, he']
      exact .error e e'
    · obtain ⟨v, hv⟩ := run_of_check ht hobstructed
      obtain ⟨w, hw⟩ := run_of_check ((agree_check_iff h).mp ht) hobstructed
      rw [hv, hw]
      exact .ok (.inl htells)
  · exact (agree_run references h htells).mono fun _ _ => .inr

end Filter
end TableSteps
