import TableSteps.Filter.Check
import TableSteps.Filter.Run
import TableSteps.Proofs.Indexing.Lookup

/-! # Filters read by position

A filter narrows a list of row numbers, and takes the rows of what is left at the end. `Numbered`
says which rows some numbers stand for; every part of a filter keeps numbers of the same rows that
it keeps when it works on rows. The positions come from the columns of the table and of the
reference, each for the rows of its own table.

The two neighbours of a quantile are read at positions that arithmetic gives. That these lie in the
sorted values is the one thing that is taken from the numbers, as `PointsInside`. -/

namespace TableSteps

variable {α : Type}

/-! ## What is taken from the numbers -/

/-- In a list of up to so many values, the neighbours of a percentile have positions. -/
def PointsInside [Quantity α] (count : Nat) (percentile : α) : Prop :=
  ∀ last < count,
    Quantity.floorNat (quantilePosition last percentile) ≤ last ∧
      Quantity.ceilNat (quantilePosition last percentile) ≤ last

/-- Both percentiles of a band point inside what the rows can give. -/
def Filter.PercentilesInside [Quantity α] (config : Filter α) (t : Table α) : Prop :=
  ∀ column low high, config.numeric = some (.band column low high) →
    PointsInside t.rowCount low ∧ PointsInside t.rowCount high

namespace Indexed

/-! ## Row numbers -/

/-- The numbers stand for these rows of the table, and are not more than it has. -/
structure Numbered (t : Table α) (numbers : List Nat) (rows : List (Row α)) : Prop where
  below : ∀ r ∈ numbers, r < t.rowCount
  few : numbers.length ≤ t.rowCount
  rows_eq : numbers.map (rowAt t) = rows

variable {t : Table α} {numbers : List Nat} {rows : List (Row α)}

theorem numbered_range (t : Table α) : Numbered t (List.range t.rowCount) t.rows where
  below _ hr := List.mem_range.mp hr
  few := by simp
  rows_eq := map_rowAt_range t

/-- A test that reads a row decides as the test of the row. -/
theorem Numbered.keep (h : Numbered t numbers rows) {test : Nat → Indexed Bool} {p : Row α → Bool}
    (htest : ∀ r < t.rowCount, test r = .ok (p (rowAt t r))) :
    ∃ kept, Indexed.keep test numbers = .ok kept ∧ Numbered t kept (rows.filter p) := by
  refine ⟨_, keep_eq_ok fun r hr => htest r (h.below r hr), ⟨fun r hr => ?_, ?_, ?_⟩⟩
  · exact h.below r (List.mem_filter.mp hr).1
  · exact Nat.le_trans (List.length_filter_le _ _) h.few
  · rw [← h.rows_eq, List.filter_map]
    rfl

theorem Numbered.selectRows (h : Numbered t numbers rows) :
    Indexed.selectRows t numbers = .ok (t.withRows rows) := by
  rw [selectRows_eq_ok h.below, h.rows_eq]

/-! ## Categories -/

section Category

variable [WireQuantity α]

/-- The rows, by number, whose cell in one column is one of some values. -/
def byCategory (t : Table α) (category : String × List Json) (numbers : List Nat) :
    Indexed (List Nat) :=
  match t.columnIndex? category.1 with
  | none => .ok numbers
  | some p =>
    keep (fun r => do
      let cell ← cellIn t p r
      pure (category.2.any cell.holds)) numbers

def byCategories (t : Table α) (categories : Dictionary (List Json)) (numbers : List Nat) :
    Indexed (List Nat) :=
  categories.entries.foldlM (fun numbers category => byCategory t category numbers) numbers

theorem Numbered.byCategory (h : Numbered t numbers rows) (ht : t.WellFormed)
    (category : String × List Json) :
    ∃ kept, Indexed.byCategory t category numbers = .ok kept ∧
      Numbered t kept (Filter.byCategory t category rows) := by
  unfold Indexed.byCategory Filter.byCategory
  cases hp : t.columnIndex? category.1 with
  | none => exact ⟨numbers, rfl, h⟩
  | some p =>
    refine h.keep fun r hr => ?_
    rw [cellIn_eq_ok ht (Table.columnIndex?_lt hp) hr]
    rfl

theorem Numbered.byCategories (ht : t.WellFormed) {entries : List (String × List Json)} :
    ∀ {numbers : List Nat} {rows : List (Row α)}, Numbered t numbers rows →
      ∃ kept,
        entries.foldlM (fun numbers category => Indexed.byCategory t category numbers) numbers =
          .ok kept ∧
        Numbered t kept
          (entries.foldl (fun rows category => Filter.byCategory t category rows) rows) := by
  induction entries with
  | nil => exact fun {numbers rows} h => ⟨numbers, rfl, h⟩
  | cons category rest ih =>
    intro numbers rows h
    obtain ⟨kept, hkept, hnumbered⟩ := h.byCategory ht category
    rw [List.foldlM_cons, hkept, ok_bind]
    exact ih hnumbered

end Category

/-! ## Numbers -/

section Numeric

variable [Quantity α]

/-- The number in a cell of a row with some number. -/
def numberIn (t : Table α) (p : Nat) (r : Nat) : Indexed (Option α) :=
  (cellIn t p r).map Cell.asNumber

def byRange (t : Table α) (p : Nat) (min max : Option (Bound α)) (numbers : List Nat) :
    Indexed (List Nat) :=
  if min.isNone && max.isNone then .ok numbers
  else
    keep (fun r => do
      let value ← numberIn t p r
      pure (value.any (Filter.inside min max))) numbers

/-- The first rows of the ranking. Every row is read once, before it is ranked. -/
def topRows (t : Table α) (p : Nat) (ascending : Bool) (count : Nat) (numbers : List Nat) :
    Indexed (List Nat) := do
  let valued ← numbers.mapM fun r => (numberIn t p r).map fun value => (value, r)
  pure ((TableSteps.topRows ascending Prod.fst count valued).map Prod.snd)

/-- The value at a percentile of sorted values, between the values at two positions. -/
def quantile? (sorted : List α) (percentile : α) : Indexed (Option α) :=
  match sorted.length with
  | 0 => .ok none
  | last + 1 => do
    let position := quantilePosition last percentile
    let lower := Quantity.floorNat position
    let low ← item sorted lower
    let high ← item sorted (Quantity.ceilNat position)
    pure (some (low + (high - low) * (position - Quantity.ofNat lower)))

def byBand (t : Table α) (p : Nat) (low high : α) (numbers : List Nat) : Indexed (List Nat) := do
  let values ← numbers.mapM (numberIn t p)
  let sorted := (values.filterMap id).mergeSort Quantity.totalLe
  let low? ← quantile? sorted low
  let high? ← quantile? sorted high
  match low?, high? with
  | some low, some high =>
    keep (fun r => do
      let value ← numberIn t p r
      pure (value.any fun x => Quantity.le low x && Quantity.le x high)) numbers
  | _, _ => .ok []

theorem quantile?_eq_ok {sorted : List α} {percentile : α}
    (h : PointsInside sorted.length percentile) :
    quantile? sorted percentile = .ok (TableSteps.quantile? sorted percentile) := by
  cases sorted with
  | nil => rfl
  | cons first rest =>
    obtain ⟨hlower, hupper⟩ := h rest.length (by simp)
    have hlow : Quantity.floorNat (quantilePosition rest.length percentile) <
        (first :: rest).length := Nat.lt_succ_of_le hlower
    have hhigh : Quantity.ceilNat (quantilePosition rest.length percentile) <
        (first :: rest).length := Nat.lt_succ_of_le hupper
    simp only [quantile?, List.length_cons, item_getD hlow first, item_getD hhigh first, ok_bind]
    rfl

variable {p : Nat}

section Column

variable (ht : t.WellFormed) (hp : p < t.columnCount)
include ht hp

theorem numberIn_eq_ok {r : Nat} (hr : r < t.rowCount) :
    numberIn t p r = .ok (Filter.numberAt p (rowAt t r)) := by
  rw [numberIn, cellIn_eq_ok ht hp hr]
  rfl

theorem Numbered.byRange (h : Numbered t numbers rows) (min max : Option (Bound α)) :
    ∃ kept, Indexed.byRange t p min max numbers = .ok kept ∧
      Numbered t kept (Filter.byRange p min max rows) := by
  unfold Indexed.byRange Filter.byRange
  split
  · exact ⟨numbers, rfl, h⟩
  · refine h.keep fun r hr => ?_
    rw [numberIn_eq_ok ht hp hr]
    rfl

/-- The rows ranked by their numbers, which were read before, are the rows in their ranking. -/
theorem Numbered.topRows (h : Numbered t numbers rows) (ascending : Bool) (count : Nat) :
    ∃ kept, Indexed.topRows t p ascending count numbers = .ok kept ∧
      Numbered t kept (TableSteps.topRows ascending (Filter.numberAt p) count rows) := by
  let valued := numbers.map fun r => (Filter.numberAt p (rowAt t r), r)
  have hvalued : (numbers.mapM fun r => (numberIn t p r).map fun value => (value, r)) =
      .ok valued :=
    mapM_eq_ok fun r hr => by rw [numberIn_eq_ok ht hp (h.below r hr), ok_map]
  -- The comparison looks at the numbers alone, so it decides the same on rows and on pairs.
  have hranked : (ranked ascending Prod.fst valued).map (fun x => rowAt t x.2) =
      ranked ascending (Filter.numberAt p) rows := by
    have hrows : valued.map (fun x => rowAt t x.2) = rows := by
      rw [← h.rows_eq, List.map_map]
      rfl
    rw [ranked, ranked, ← hrows]
    refine List.map_mergeSort fun a ha b hb => ?_
    obtain ⟨r, -, rfl⟩ := List.mem_map.mp ha
    obtain ⟨r', -, rfl⟩ := List.mem_map.mp hb
    rfl
  have hmem : ∀ x ∈ TableSteps.topRows ascending Prod.fst count valued, x ∈ valued := fun x hx =>
    List.mem_mergeSort.mp (List.mem_of_mem_take hx)
  refine ⟨(TableSteps.topRows ascending Prod.fst count valued).map Prod.snd, ?_, ?_, ?_, ?_⟩
  · rw [Indexed.topRows, hvalued]
    rfl
  · intro r hr
    obtain ⟨x, hx, rfl⟩ := List.mem_map.mp hr
    obtain ⟨r', hr', rfl⟩ := List.mem_map.mp (hmem x hx)
    exact h.below r' hr'
  · have hlength : valued.length = numbers.length := List.length_map ..
    refine Nat.le_trans ?_ h.few
    simp only [TableSteps.topRows, ranked, List.length_map, List.length_take, List.length_mergeSort,
      hlength]
    exact Nat.min_le_right ..
  · rw [TableSteps.topRows, TableSteps.topRows, ← hranked, List.map_map, List.map_take]
    rfl

/-- There are at most as many numbers in a column as rows, so the percentiles point inside them. -/
theorem Numbered.byBand (h : Numbered t numbers rows) {low high : α}
    (hlow : PointsInside t.rowCount low) (hhigh : PointsInside t.rowCount high) :
    ∃ kept, Indexed.byBand t p low high numbers = .ok kept ∧
      Numbered t kept (Filter.byBand p low high rows) := by
  have hvalues : numbers.mapM (numberIn t p) = .ok (rows.map (Filter.numberAt p)) := by
    rw [mapM_eq_ok fun r hr => numberIn_eq_ok ht hp (h.below r hr), ← h.rows_eq, List.map_map]
    rfl
  have hlength : ((rows.filterMap (Filter.numberAt p)).mergeSort Quantity.totalLe).length ≤
      t.rowCount := by
    rw [List.length_mergeSort]
    refine Nat.le_trans (List.length_filterMap_le _ _) ?_
    rw [← h.rows_eq, List.length_map]
    exact h.few
  have hinside : ∀ {percentile : α}, PointsInside t.rowCount percentile →
      quantile? ((rows.filterMap (Filter.numberAt p)).mergeSort Quantity.totalLe) percentile =
        .ok (TableSteps.quantile? ((rows.filterMap (Filter.numberAt p)).mergeSort
          Quantity.totalLe) percentile) :=
    fun hpoints => quantile?_eq_ok fun last hlast => hpoints last (Nat.lt_of_lt_of_le hlast hlength)
  simp only [Indexed.byBand, Filter.byBand, hvalues, ok_bind, List.filterMap_map,
    Function.id_comp, hinside hlow, hinside hhigh]
  have hnone : ∃ kept, (.ok [] : Indexed (List Nat)) = .ok kept ∧ Numbered t kept [] :=
    ⟨[], rfl, ⟨by simp, by simp, rfl⟩⟩
  cases TableSteps.quantile? _ low with
  | none => exact hnone
  | some low =>
    cases TableSteps.quantile? _ high with
    | none => exact hnone
    | some high =>
      refine h.keep fun r hr => ?_
      rw [numberIn_eq_ok ht hp hr]
      rfl

end Column

end Numeric

/-! ## Joins -/

section Join

variable [Quantity α]

omit [Quantity α] in
theorem keyPositions_lt {names : List String} :
    ∀ {i : Nat} {ps : List Nat}, Filter.keyPositions t i names = .ok ps →
      ∀ p ∈ ps, p < t.columnCount := by
  induction names with
  | nil =>
    intro i ps h
    cases h
    simp
  | cons name rest ih =>
    intro i ps h
    unfold Filter.keyPositions at h
    split at h
    · cases h
    · rename_i p hp
      split at h
      · cases h
      · rename_i others hothers
        cases h
        exact List.forall_mem_cons.mpr ⟨Table.columnIndex?_lt hp, ih hothers⟩

/-- The rows, by number, whose key is among some keys, or the others. -/
def byKeys (t : Table α) (positions : List Nat) (keys : List (RowKey (Keyed.Key α)))
    (exclude : Bool) (numbers : List Nat) : Indexed (List Nat) :=
  keep (fun r => do
    let row ← item t.rows r
    let key ← rowKey positions row
    pure (keys.contains key != exclude)) numbers

theorem Numbered.byKeys (h : Numbered t numbers rows) (ht : t.WellFormed) {positions : List Nat}
    (hpositions : ∀ p ∈ positions, p < t.columnCount) (keys : List (RowKey (Keyed.Key α)))
    (exclude : Bool) :
    ∃ kept, Indexed.byKeys t positions keys exclude numbers = .ok kept ∧
      Numbered t kept
        (rows.filter fun row => keys.contains (RowKey.ofRow row positions) != exclude) := by
  refine h.keep fun r hr => ?_
  rw [item_rows hr, ok_bind, rowKey_eq_ok ht hpositions (rowAt_mem hr)]
  rfl

end Join

end Indexed

namespace Guarded

open Indexed (Numbered)

/-! ## All filters in order -/

section Run

variable [Quantity α]

def byNumber (t : Table α) (filter : NumberFilter α) (numbers : List Nat) :
    Guarded StepError (List Nat) :=
  match t.columnIndex? filter.column with
  | none => settle (refuse (Filter.numericPlace "column") (.unknownColumn filter.column t.columns))
  | some p =>
    match filter with
    | .range _ min max =>
      look (Indexed.byRange t p (Bound.active? min) (Bound.active? max) numbers)
    | .top _ count ascending =>
      if count ≤ 0 then settle (refuse (Filter.numericPlace "k") (.nonPositiveCount count))
      else look (Indexed.topRows t p ascending count.toNat numbers)
    | .band _ low high => look (Indexed.byBand t p low high numbers)

def byJoin (t : Table α) (filter : JoinFilter) (references : References α) (numbers : List Nat) :
    Guarded StepError (List Nat) := do
  let reference ← settle (Filter.referenceTable filter references)
  let own ← settle (Filter.keyPositions t 0 filter.keyColumns)
  let others ← settle (Filter.keyPositions reference 0 filter.keyColumns)
  let keys ← look (reference.rows.mapM (Indexed.rowKey others))
  look (Indexed.byKeys t own keys filter.exclude numbers)

end Run

variable [WireQuantity α]

def afterCategories (config : Filter α) (t : Table α) : Indexed (List Nat) :=
  match config.categories with
  | some categories => Indexed.byCategories t categories (List.range t.rowCount)
  | none => .ok (List.range t.rowCount)

def afterNumeric (config : Filter α) (t : Table α) (numbers : List Nat) :
    Guarded StepError (List Nat) :=
  match config.numeric with
  | some filter => byNumber t filter numbers
  | none => settle (.ok numbers)

def afterJoin (config : Filter α) (t : Table α) (references : References α) (numbers : List Nat) :
    Guarded StepError (List Nat) :=
  match config.activeJoin? with
  | some filter => byJoin t filter references numbers
  | none => settle (.ok numbers)

def filter (config : Filter α) (t : Table α) (references : References α) :
    Guarded StepError (Table α) := do
  let numbers ← look (afterCategories config t)
  let numbers ← afterNumeric config t numbers
  let numbers ← afterJoin config t references numbers
  look (Indexed.selectRows t numbers)

def checkFilter (config : Filter α) (t : Table α) (stale : StaleCategories) :
    Guarded StepError Unit := do
  settle config.checkShape
  match config.categories, stale with
  | some categories, .refused => settle (Filter.checkCategoryColumns t categories.keys)
  | _, _ => settle (.ok ())
  match config.numeric with
  | some filter => checkNumeric t (Filter.numericPlace "column") filter.column
  | none => settle (.ok ())
  match config.activeJoin? with
  | some filter => settle (Filter.checkKeyColumns t 0 filter.keyColumns)
  | none => settle (.ok ())

/-! ## Row numbers come out as rows -/

variable {t : Table α} {numbers : List Nat} {rows : List (Row α)}

section Selects

omit [WireQuantity α]

/-- The numbers that are left stand for the rows that are left, or both end in one error. -/
inductive Selects (t : Table α) : Guarded StepError (List Nat) → Checked (List (Row α)) → Prop
  | rows {numbers : List Nat} {rows : List (Row α)} :
    Numbered t numbers rows → Selects t (settle (.ok numbers)) (.ok rows)
  | error (e : StepError) : Selects t (settle (.error e)) (.error e)

theorem Selects.of_kept {x : Indexed (List Nat)}
    (h : ∃ kept, x = .ok kept ∧ Numbered t kept rows) : Selects t (look x) (.ok rows) := by
  obtain ⟨kept, rfl, hkept⟩ := h
  exact .rows hkept

theorem Selects.after {σ : Type} {x : Checked σ} {f : σ → Guarded StepError (List Nat)}
    {g : σ → Checked (List (Row α))} (h : ∀ v, x = .ok v → Selects t (f v) (g v)) :
    Selects t (settle x >>= f) (x >>= g) := by
  cases x with
  | error e => exact .error e
  | ok v => exact h v rfl

/-- What goes on with the numbers is settled when it is for all numbers of the same rows. -/
theorem Selects.bind {τ : Type} {x : Guarded StepError (List Nat)} {y : Checked (List (Row α))}
    {f : List Nat → Guarded StepError τ} {g : List (Row α) → Checked τ} (h : Selects t x y)
    (hf : ∀ {numbers rows}, Numbered t numbers rows → f numbers = settle (g rows)) :
    (x >>= f) = settle (y >>= g) := by
  cases h with
  | rows hnumbered => exact hf hnumbered
  | error e => rfl

end Selects

section Parts

omit [WireQuantity α]
variable [Quantity α]

theorem selects_byNumber (ht : t.WellFormed) (h : Numbered t numbers rows) {filter : NumberFilter α}
    (hinside : ∀ column low high, filter = .band column low high →
      PointsInside t.rowCount low ∧ PointsInside t.rowCount high) :
    Selects t (byNumber t filter numbers) (Filter.byNumber t filter rows) := by
  unfold byNumber Filter.byNumber
  cases hp : t.columnIndex? filter.column with
  | none => exact .error _
  | some p =>
    have hlt := Table.columnIndex?_lt hp
    cases filter with
    | range column min max => exact .of_kept (h.byRange ht hlt _ _)
    | top column count ascending =>
      by_cases hcount : count ≤ 0
      · simp only [hcount, if_true]
        exact .error _
      · simp only [hcount, if_false]
        exact .of_kept (h.topRows ht hlt _ _)
    | band column low high =>
      obtain ⟨hlow, hhigh⟩ := hinside column low high rfl
      exact .of_kept (h.byBand ht hlt hlow hhigh)

theorem selects_byJoin (ht : t.WellFormed) {references : References α}
    (hreferences : ∀ name r, references.get? name = some r → r.WellFormed)
    (h : Numbered t numbers rows) (filter : JoinFilter) :
    Selects t (byJoin t filter references numbers) (Filter.byJoin t filter references rows) := by
  refine .after fun reference hreference => .after fun own hown => .after fun others hothers => ?_
  have hr : reference.WellFormed := by
    unfold Filter.referenceTable at hreference
    split at hreference
    · cases hreference
    · rename_i name _
      split at hreference
      · rename_i hget
        cases hreference
        exact hreferences name _ hget
      · cases hreference
  rw [Indexed.mapM_eq_ok fun row hrow =>
    Indexed.rowKey_eq_ok hr (Indexed.keyPositions_lt hothers) hrow, look_ok, settle_ok_bind]
  exact .of_kept (h.byKeys ht (Indexed.keyPositions_lt hown) _ _)

end Parts

theorem afterCategories_eq_ok (ht : t.WellFormed) (config : Filter α) :
    ∃ kept, afterCategories config t = .ok kept ∧ Numbered t kept (config.afterCategories t) := by
  unfold afterCategories Filter.afterCategories
  cases config.categories with
  | none => exact ⟨_, rfl, Indexed.numbered_range t⟩
  | some categories => exact Numbered.byCategories ht (Indexed.numbered_range t)

theorem selects_afterNumeric (ht : t.WellFormed) {config : Filter α}
    (hinside : config.PercentilesInside t) (h : Numbered t numbers rows) :
    Selects t (afterNumeric config t numbers) (config.afterNumeric t rows) := by
  unfold afterNumeric Filter.afterNumeric
  cases hfilter : config.numeric with
  | none => exact .rows h
  | some filter =>
    refine selects_byNumber ht h fun column low high hband => ?_
    exact hinside column low high (by rw [hfilter, hband])

theorem selects_afterJoin (ht : t.WellFormed) {references : References α}
    (hreferences : ∀ name r, references.get? name = some r → r.WellFormed) (config : Filter α)
    (h : Numbered t numbers rows) :
    Selects t (afterJoin config t references numbers) (config.afterJoin t references rows) := by
  unfold afterJoin Filter.afterJoin
  cases config.activeJoin? with
  | none => exact .rows h
  | some filter => exact selects_byJoin ht hreferences h filter

theorem filter_eq_settle (ht : t.WellFormed) {references : References α}
    (hreferences : ∀ name r, references.get? name = some r → r.WellFormed) {config : Filter α}
    (hinside : config.PercentilesInside t) :
    filter config t references = settle (config.run t references) := by
  obtain ⟨kept, hkept, hnumbered⟩ := afterCategories_eq_ok ht config
  rw [filter, hkept, look_ok, settle_ok_bind]
  refine (selects_afterNumeric ht hinside hnumbered).bind fun h => ?_
  refine (selects_afterJoin ht hreferences config h).bind fun h => ?_
  rw [h.selectRows]
  rfl

theorem checkFilter_eq_settle (ht : t.WellFormed) (config : Filter α) (stale : StaleCategories) :
    checkFilter config t stale = settle (config.check (some t) stale) := by
  refine settle_bind fun _ _ => ?_
  simp only [Filter.checkColumns]
  cases config.numeric <;> cases config.activeJoin? <;> cases config.categories <;> cases stale <;>
    simp [checkNumeric_eq_settle ht]

end Guarded
end TableSteps
