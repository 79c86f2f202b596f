import TableSteps.Proofs.Filter.Sequence
import TableSteps.Proofs.ListPairs

/-! # One filter over two tables

The rows of two tables are paired one by one, and the columns that a filter reads hold cells it does
not tell apart. Then the filter passes its check over both tables or over neither, and keeps the
same pairs, in the same order.

What cells a filter does not tell apart is left open, as `Indistinct`. Equal cells are the plain
case, where the columns that are not read may differ. A ranking looks closer than the other
conditions: it has to put the rows in the same order. -/

namespace TableSteps

namespace Filter

variable {α : Type}

/-- The column is in neither table, or in both with related cells in related rows. -/
def SameReading (R : Cell α → Cell α → Prop) (S : Row α → Row α → Prop) (t t' : Table α)
    (name : String) : Prop :=
  Option.Rel (fun p p' => ∀ row row', S row row' → R (cellAt row p) (cellAt row' p'))
    (t.columnIndex? name) (t'.columnIndex? name)

/-- The columns whose cells a filter reads. -/
def reads (config : Filter α) : List String :=
  (config.categories.map Dictionary.keys).getD [] ++
    (config.numeric.map NumberFilter.column).toList ++
    (config.activeJoin?.map JoinFilter.keyColumns).getD []

variable {R : Cell α → Cell α → Prop} {S : Row α → Row α → Prop} {t t' : Table α}
  {rows rows' : List (Row α)}

theorem SameReading.cases {name : String} (h : SameReading R S t t' name) :
    (t.columnIndex? name = none ∧ t'.columnIndex? name = none) ∨
      ∃ p p', t.columnIndex? name = some p ∧ t'.columnIndex? name = some p' ∧
        ∀ row row', S row row' → R (cellAt row p) (cellAt row' p') := by
  unfold SameReading at h
  cases hp : t.columnIndex? name <;> cases hp' : t'.columnIndex? name <;> rw [hp, hp'] at h <;>
    cases h
  · exact .inl ⟨rfl, rfl⟩
  · rename_i h
    exact .inr ⟨_, _, rfl, rfl, h⟩

theorem SameReading.related {name : String} (h : SameReading R S t t' name) {p p' : Nat}
    (hp : t.columnIndex? name = some p) (hp' : t'.columnIndex? name = some p') {row row' : Row α}
    (hrow : S row row') : R (cellAt row p) (cellAt row' p') := by
  unfold SameReading at h
  rw [hp, hp'] at h
  cases h with
  | some hcells => exact hcells row row' hrow

theorem SameReading.mem_columns_iff {name : String} (h : SameReading R S t t' name) :
    name ∈ t.columns ↔ name ∈ t'.columns := by
  rw [← Table.hasColumn_iff, ← Table.hasColumn_iff, ← Table.isSome_columnIndex?,
    ← Table.isSome_columnIndex?]
  obtain ⟨hp, hp'⟩ | ⟨p, p', hp, hp', -⟩ := h.cases <;> simp [hp, hp']

/-- Rows in pairs are kept or dropped together. -/
theorem forall₂_filter {p q : Row α → Bool} (hpq : ∀ row row', S row row' → p row = q row')
    (h : List.Forall₂ S rows rows') : List.Forall₂ S (rows.filter p) (rows'.filter q) :=
  List.rel_filter (fun row row' hrow => Eq.congr_left (hpq row row' hrow)) h

theorem forall₂_cells {p p' : Nat}
    (hcells : ∀ row row', S row row' → R (cellAt row p) (cellAt row' p')) (h : List.Forall₂ S rows rows') :
    List.Forall₂ R (rows.map (cellAt · p)) (rows'.map (cellAt · p')) :=
  List.rel_map (fun row row' hrow => hcells row row' hrow) h

section Numeric

variable [Quantity α]

/-- The cell has a number between two percentiles of the numbers in some cells. -/
def inBand (low high : α) (cells : List (Cell α)) (c : Cell α) : Bool :=
  let sorted := (cells.filterMap Cell.asNumber).mergeSort Quantity.totalLe
  match quantile? sorted low, quantile? sorted high with
  | some low, some high => c.asNumber.any fun x => Quantity.le low x && Quantity.le x high
  | _, _ => false

theorem byBand_eq_filter {p : Nat} {low high : α} {rows : List (Row α)} :
    byBand p low high rows =
      rows.filter fun row => inBand low high (rows.map (cellAt · p)) (cellAt row p) := by
  have hnumbers : (rows.map (cellAt · p)).filterMap Cell.asNumber =
      rows.filterMap (numberAt p) := List.filterMap_map
  unfold byBand inBand
  simp only [hnumbers]
  cases quantile? ((rows.filterMap (numberAt p)).mergeSort Quantity.totalLe) low with
  | none => simp
  | some l => cases quantile? ((rows.filterMap (numberAt p)).mergeSort Quantity.totalLe) high <;> simp [numberAt]

end Numeric

variable [WireQuantity α]

/-- Cells that no condition of a filter tells apart, but for a ranking. -/
structure Indistinct (R : Cell α → Cell α → Prop) : Prop where
  key {c d : Cell α} : R c d → c.key = d.key
  holds {c d : Cell α} : R c d → ∀ value, c.holds value = d.holds value
  readable {c d : Cell α} : R c d →
    (c.isMissing || c.asNumber.isSome) = (d.isMissing || d.asNumber.isSome)
  inside {c d : Cell α} : R c d →
    ∀ min max, c.asNumber.any (inside min max) = d.asNumber.any (inside min max)
  inBand {c d : Cell α} {cells cells' : List (Cell α)} : R c d → List.Forall₂ R cells cells' →
    ∀ low high, inBand low high cells c = inBand low high cells' d

theorem indistinct_eq : Indistinct (Eq : Cell α → Cell α → Prop) where
  key h := by rw [h]
  holds h _ := by rw [h]
  readable h := by rw [h]
  inside h _ _ := by rw [h]
  inBand h hs _ _ := by
    rw [List.forall₂_eq_eq_eq] at hs
    rw [h, hs]

variable {config : Filter α}

/-! ## Running -/

theorem forall₂_byCategory (hR : Indistinct R) {category : String × List Json}
    (hname : SameReading R S t t' category.1) (h : List.Forall₂ S rows rows') :
    List.Forall₂ S (byCategory t category rows) (byCategory t' category rows') := by
  unfold byCategory
  obtain ⟨hp, hp'⟩ | ⟨p, p', hp, hp', hcells⟩ := hname.cases
  · rw [hp, hp']
    exact h
  · rw [hp, hp']
    refine forall₂_filter (fun row row' hrow => ?_) h
    rw [funext (hR.holds (hcells row row' hrow))]

theorem forall₂_foldl_byCategory (hR : Indistinct R) {categories : List (String × List Json)} :
    ∀ {rows rows' : List (Row α)},
      (∀ category ∈ categories, SameReading R S t t' category.1) → List.Forall₂ S rows rows' →
      List.Forall₂ S
        (categories.foldl (fun rows category => byCategory t category rows) rows)
        (categories.foldl (fun rows category => byCategory t' category rows) rows') := by
  induction categories with
  | nil => exact fun _ h => h
  | cons category rest ih =>
    intro rows rows' hnames h
    refine ih (fun other hother => hnames other (List.mem_cons_of_mem _ hother)) ?_
    exact forall₂_byCategory hR (hnames category List.mem_cons_self) h

theorem forall₂_afterCategories (hR : Indistinct R)
    (hnames : ∀ name ∈ config.reads, SameReading R S t t' name)
    (h : List.Forall₂ S t.rows t'.rows) :
    List.Forall₂ S (config.afterCategories t) (config.afterCategories t') := by
  unfold afterCategories
  cases hcategories : config.categories with
  | none => exact h
  | some categories =>
    refine forall₂_foldl_byCategory hR (fun category hcategory => hnames _ ?_) h
    have hmem : category.1 ∈ categories.keys := List.mem_map_of_mem hcategory
    simp [reads, hcategories, hmem]

theorem forall₂_byRange (hR : Indistinct R) {p p' : Nat} {min max : Option (Bound α)}
    (hcells : ∀ row row', S row row' → R (cellAt row p) (cellAt row' p'))
    (h : List.Forall₂ S rows rows') :
    List.Forall₂ S (byRange p min max rows) (byRange p' min max rows') := by
  unfold byRange
  split
  · exact h
  · exact forall₂_filter (fun row row' hrow => hR.inside (hcells row row' hrow) min max) h

theorem forall₂_byBand (hR : Indistinct R) {p p' : Nat} {low high : α}
    (hcells : ∀ row row', S row row' → R (cellAt row p) (cellAt row' p'))
    (h : List.Forall₂ S rows rows') :
    List.Forall₂ S (byBand p low high rows) (byBand p' low high rows') := by
  rw [byBand_eq_filter, byBand_eq_filter]
  exact forall₂_filter
    (fun row row' hrow => hR.inBand (hcells row row' hrow) (forall₂_cells hcells h) low high) h

/-- A ranking puts related rows in the same order. -/
def SameRanking (S : Row α → Row α → Prop) (t t' : Table α) : NumberFilter α → Prop
  | .top column _ ascending =>
    ∀ p p', t.columnIndex? column = some p → t'.columnIndex? column = some p' →
      ∀ x x' y y', S x x' → S y y' →
        ranksBefore ascending (numberAt p x) (numberAt p y) =
          ranksBefore ascending (numberAt p' x') (numberAt p' y')
  | .range .. | .band .. => True

theorem alike_byNumber (hR : Indistinct R) {filter : NumberFilter α}
    (hname : SameReading R S t t' filter.column) (hranking : SameRanking S t t' filter)
    (h : List.Forall₂ S rows rows') :
    Alike (List.Forall₂ S) (byNumber t filter rows) (byNumber t' filter rows') := by
  unfold byNumber
  obtain ⟨hp, hp'⟩ | ⟨p, p', hp, hp', hcells⟩ := hname.cases
  · rw [hp, hp']
    exact .error _ _
  · rw [hp, hp']
    cases filter with
    | range column min max => exact .ok (forall₂_byRange hR hcells h)
    | band column low high => exact .ok (forall₂_byBand hR hcells h)
    | top column count ascending =>
      dsimp only
      split
      · exact .error _ _
      · exact .ok (List.forall₂_take _ (forall₂_mergeSort (hranking p p' hp hp') h))

omit [WireQuantity α] in
theorem alike_keyPositions [Quantity α] {names : List String}
    (hR : ∀ c d : Cell α, R c d → c.key = d.key) :
    ∀ {i : Nat}, (∀ name ∈ names, SameReading R S t t' name) →
      Alike (fun ps ps' => ∀ row row', S row row' → RowKey.ofRow row ps = RowKey.ofRow row' ps')
        (keyPositions t i names) (keyPositions t' i names) := by
  induction names with
  | nil => exact fun _ => .ok fun _ _ _ => rfl
  | cons name rest ih =>
    intro i hnames
    obtain ⟨hp, hp'⟩ | ⟨p, p', hp, hp', hcells⟩ := (hnames name List.mem_cons_self).cases
    · simp only [keyPositions, hp, hp', refuse]
      exact .error _ _
    · have hrest := ih (i := i + 1) fun other hother => hnames other (List.mem_cons_of_mem _ hother)
      simp only [keyPositions, hp, hp']
      generalize keyPositions t (i + 1) rest = x, keyPositions t' (i + 1) rest = y at hrest
      cases hrest with
      | error e e' => exact .error e e'
      | ok hps =>
        refine .ok fun row row' hrow => ?_
        have hkey := hR _ _ (hcells row row' hrow)
        have hkeys := congrArg RowKey.values (hps row row' hrow)
        simp only [RowKey.ofRow, List.map_cons, hkey, RowKey.mk.injEq, List.cons.injEq, true_and]
        exact hkeys

theorem alike_byJoin (hR : Indistinct R) {filter : JoinFilter} {references : References α}
    (hnames : ∀ name ∈ filter.keyColumns, SameReading R S t t' name)
    (h : List.Forall₂ S rows rows') :
    Alike (List.Forall₂ S) (byJoin t filter references rows)
      (byJoin t' filter references rows') := by
  unfold byJoin
  cases referenceTable filter references with
  | error e => exact .error e e
  | ok reference =>
    refine (alike_keyPositions (fun _ _ => hR.key) hnames).bind fun own own' hown => ?_
    cases keyPositions reference 0 filter.keyColumns with
    | error e => exact .error e e
    | ok others => exact .ok (forall₂_filter (fun row row' hrow => by rw [hown row row' hrow]) h)

/-- A filter fails over both tables, or keeps the same pairs of rows. -/
theorem alike_run (hR : Indistinct R) (references : References α)
    (hnames : ∀ name ∈ config.reads, SameReading R S t t' name)
    (hranking : ∀ filter, config.numeric = some filter → SameRanking S t t' filter)
    (h : List.Forall₂ S t.rows t'.rows) :
    Alike
      (fun u u' => u.columns = t.columns ∧ u'.columns = t'.columns ∧ List.Forall₂ S u.rows u'.rows)
      (config.run t references) (config.run t' references) := by
  have hnumeric : Alike (List.Forall₂ S) (config.afterNumeric t (config.afterCategories t))
      (config.afterNumeric t' (config.afterCategories t')) := by
    have hrows := forall₂_afterCategories hR hnames h
    unfold afterNumeric
    cases hfilter : config.numeric with
    | none => exact .ok hrows
    | some filter =>
      exact alike_byNumber hR (hnames _ (by simp [reads, hfilter])) (hranking filter hfilter) hrows
  rw [run_eq, run_eq]
  refine hnumeric.bind fun rows rows' hrows => ?_
  have hjoin : Alike (List.Forall₂ S) (config.afterJoin t references rows)
      (config.afterJoin t' references rows') := by
    unfold afterJoin
    cases hactive : config.activeJoin? with
    | none => exact .ok hrows
    | some filter =>
      exact alike_byJoin hR (fun name hname => hnames _ (by simp [reads, hactive, hname])) hrows
  exact hjoin.map fun kept kept' hkept => ⟨rfl, rfl, hkept⟩

/-! ## Checking -/

theorem isNumericColumn_eq (hR : Indistinct R) {name : String}
    (hname : SameReading R S t t' name) (h : List.Forall₂ S t.rows t'.rows) :
    t.isNumericColumn name = t'.isNumericColumn name := by
  unfold Table.isNumericColumn Table.columnValues?
  obtain ⟨hp, hp'⟩ | ⟨p, p', hp, hp', hcells⟩ := hname.cases
  · rw [hp, hp']
    rfl
  · have hcolumn : List.Forall₂ R (t.cellsAt p) (t'.cellsAt p') := forall₂_cells hcells h
    rw [hp, hp', Option.map_some, Option.map_some, Option.any_some, Option.any_some]
    exact all_eq_of_forall₂ (fun c d (hcd : R c d) => hR.readable hcd) hcolumn

theorem checkNumeric_iff (hR : Indistinct R) {place : Place} {name : String}
    (hname : SameReading R S t t' name) (h : List.Forall₂ S t.rows t'.rows) :
    t.checkNumeric place name = .ok () ↔ t'.checkNumeric place name = .ok () := by
  rw [Table.checkNumeric_eq_ok_iff, Table.checkNumeric_eq_ok_iff, hname.mem_columns_iff,
    isNumericColumn_eq hR hname h]

/-- A filter that runs over one of the tables passes its check over the other as well. -/
theorem check_iff (hR : Indistinct R)
    (hnames : ∀ name ∈ config.reads, SameReading R S t t' name)
    (h : List.Forall₂ S t.rows t'.rows) :
    config.check (some t) .allowed = .ok () ↔ config.check (some t') .allowed = .ok () := by
  rw [check_eq_ok_iff, check_eq_ok_iff, checkColumns_eq_ok_iff, checkColumns_eq_ok_iff]
  refine and_congr_right fun _ => and_congr (by simp) (and_congr ?_ ?_)
  · refine forall₂_congr fun filter hfilter => checkNumeric_iff hR (hnames _ ?_) h
    simp [reads, hfilter]
  · refine forall₂_congr fun filter hactive => ?_
    rw [checkKeyColumns_eq_ok_iff, checkKeyColumns_eq_ok_iff]
    refine forall₂_congr fun name hname => (hnames name ?_).mem_columns_iff
    simp [reads, hactive, hname]

end Filter
end TableSteps
