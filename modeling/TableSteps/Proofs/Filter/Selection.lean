import TableSteps.Formula.RowValue
import TableSteps.Proofs.Binary64.Lawful
import TableSteps.Proofs.Binary64.SignedZero
import TableSteps.Proofs.Filter.JoinAggregated
import TableSteps.Proofs.Quantity.Order

/-! # A filter selects row by row

A filter whose condition on numbers is a range asks each row on its own. Whether the row stays
depends on its own cells and on the reference of the join, never on the other rows; so the output is
the input without the rows that are not selected.

What one filter selects, its counterpart leaves. Excluding instead of keeping selects, of the rows
that the other parts leave, those that the join passed over; and a range cut at one of its numbers
leaves two ranges that share the rows among them, as long as only one of the two has the number
itself. A row whose number is not a number is in neither. -/

namespace TableSteps

open Formula (cellOf)

/-! ## Parts of a list -/

section Lists

variable {ρ : Type} {P Q : ρ → Prop} {xs ys zs : List ρ}

/-- The elements with a property are kept, in their order, and no others. -/
def Keeps (P : ρ → Prop) (xs kept : List ρ) : Prop :=
  ∃ p : ρ → Bool, (∀ x, p x = true ↔ P x) ∧ kept = xs.filter p

/-- Every element goes to one of two sides, in its order. -/
def Splits (xs left right : List ρ) : Prop :=
  ∃ p : ρ → Bool, left = xs.filter p ∧ right = xs.filter fun x => !p x

theorem Keeps.all (h : ∀ x, P x) : Keeps P xs xs :=
  ⟨fun _ => true, by simpa using h, by simp⟩

theorem Keeps.filter {p : ρ → Bool} (h : ∀ x, p x = true ↔ P x) : Keeps P xs (xs.filter p) :=
  ⟨p, h, rfl⟩

theorem Keeps.congr (h : Keeps P xs ys) (hPQ : ∀ x, P x ↔ Q x) : Keeps Q xs ys := by
  obtain ⟨p, hp, rfl⟩ := h
  exact .filter fun x => (hp x).trans (hPQ x)

theorem Keeps.trans (h : Keeps P xs ys) (h' : Keeps Q ys zs) :
    Keeps (fun x => P x ∧ Q x) xs zs := by
  obtain ⟨p, hp, rfl⟩ := h
  obtain ⟨q, hq, rfl⟩ := h'
  rw [List.filter_filter]
  exact .filter fun x => by rw [Bool.and_eq_true, hp, hq, and_comm]

end Lists

/-! ## Conditions on one row -/

variable {α : Type}

/-- The cell holds the same scalar: null for an empty cell, else a scalar of the cell's own type,
where numbers are the same by value. -/
inductive Cell.Matches [WireQuantity α] : Cell α → Json → Prop where
  | empty : Matches .empty .null
  | boolean (b : Bool) : Matches (.boolean b) (.bool b)
  | text (s : String) : Matches (.text s) (.str s)
  | number {x y : α} {value : Json} (hvalue : WireQuantity.ofJson? value = some y)
    (h : Quantity.eqv y x = true) : Matches (.number x) value

theorem Cell.holds_iff_matches [WireQuantity α] {c : Cell α} {value : Json} :
    c.holds value = true ↔ c.Matches value := by
  constructor
  · intro h
    cases c with
    | number x =>
      obtain ⟨y, hvalue, hy⟩ := (Option.any_eq_true _ _).mp h
      exact .number hvalue hy
    | empty =>
      cases value with
      | null => exact .empty
      | bool | int | float | str | arr | obj => cases h
    | boolean b =>
      cases value with
      | bool b' =>
        cases eq_of_beq h
        exact .boolean b
      | null | int | float | str | arr | obj => cases h
    | text s =>
      cases value with
      | str s' =>
        cases eq_of_beq h
        exact .text s
      | null | bool | int | float | arr | obj => cases h
  · intro h
    cases h with
    | number hvalue h => exact (Option.any_eq_true _ _).mpr ⟨_, hvalue, h⟩
    | empty => rfl
    | boolean | text => exact beq_self_eq_true _

namespace Filter

/-- The cell in the column of the category, if there is one, holds a listed value. -/
def Allows [WireQuantity α] (t : Table α) (category : String × List Json) (row : Row α) : Prop :=
  category.1 ∈ t.columns → ∃ value ∈ category.2, (cellOf t.columns row category.1).Matches value

/-- The number meets all bounds that are there and enabled, each strictly unless it is inclusive. -/
structure Within [Quantity α] (min max : Option (Bound α)) (x : α) : Prop where
  above : ∀ b, min = some b → b.enabled = true →
    if b.inclusive then Quantity.le b.value x = true else Quantity.lt b.value x = true
  below : ∀ b, max = some b → b.enabled = true →
    if b.inclusive then Quantity.le x b.value = true else Quantity.lt x b.value = true

/-- The row's key is among those of the reference, or not if the join excludes. -/
def Joins [Quantity α] (filter : JoinFilter) (t : Table α) (references : References α)
    (row : Row α) : Prop :=
  ∃ name reference, filter.reference = some name ∧ references.get? name = some reference ∧
    ((∃ other ∈ reference.rows,
        RowKey.ofRow other (Aggregation.positions reference filter.keyColumns) =
          RowKey.ofRow row (Aggregation.positions t filter.keyColumns)) ↔
      filter.exclude = false)

/-- What a filter with a range, or with no condition on numbers, asks of a row. -/
structure Selects [WireQuantity α] (config : Filter α) (t : Table α) (references : References α)
    (row : Row α) : Prop where
  category : ∀ categories, config.categories = some categories →
    ∀ category ∈ categories.entries, Allows t category row
  number : ∀ column min max, config.numeric = some (.range column min max) →
    (∃ b, (min = some b ∨ max = some b) ∧ b.enabled = true) →
      ∃ x, (cellOf t.columns row column).asNumber = some x ∧ Within min max x
  join : ∀ filter, config.join = some filter → filter.enabled = true →
    Joins filter t references row


/-! ## Categories -/

section Category

variable [WireQuantity α] {t : Table α} {rows : List (Row α)}

theorem keeps_byCategory (category : String × List Json) :
    Keeps (Allows t category) rows (byCategory t category rows) := by
  unfold byCategory
  by_cases hcolumn : category.1 ∈ t.columns
  · rw [Table.columnIndex?_of_mem hcolumn]
    refine .filter fun row => ?_
    simp only [Allows, hcolumn, true_imp_iff, List.any_eq_true, ← Cell.holds_iff_matches]
    rfl
  · have hnone : t.columnIndex? category.1 = none := List.idxOf?_eq_none_iff.mpr hcolumn
    rw [hnone]
    exact .all fun _ h => absurd h hcolumn

theorem keeps_foldl_byCategory {categories : List (String × List Json)} :
    ∀ {rows : List (Row α)},
      Keeps (fun row => ∀ category ∈ categories, Allows t category row)
        rows (categories.foldl (fun rows category => byCategory t category rows) rows) := by
  induction categories with
  | nil => exact .all (by simp)
  | cons category rest ih =>
    refine ((keeps_byCategory category).trans ih).congr fun row => ?_
    rw [List.forall_mem_cons]

theorem keeps_afterCategories (config : Filter α) (t : Table α) :
    Keeps (fun row => ∀ categories, config.categories = some categories →
        ∀ category ∈ categories.entries, Allows t category row)
      t.rows (config.afterCategories t) := by
  unfold afterCategories
  cases config.categories with
  | none => exact .all nofun
  | some categories => exact keeps_foldl_byCategory.congr fun row => by simp

end Category

/-! ## Ranges -/

section Range

variable [Quantity α] {t : Table α} {column : String} {min max : Option (Bound α)}
  {rows kept : List (Row α)} {row : Row α}

/-- The row has a number inside the range, or the range is open on both sides. -/
def inRange (t : Table α) (column : String) (min max : Option (Bound α)) (row : Row α) : Bool :=
  (Bound.active? min).isNone && (Bound.active? max).isNone ||
    (cellOf t.columns row column).asNumber.any (inside (Bound.active? min) (Bound.active? max))

omit [Quantity α] in
theorem active?_eq_some_iff {b? : Option (Bound α)} {b : Bound α} :
    Bound.active? b? = some b ↔ b? = some b ∧ b.enabled = true :=
  Option.filter_eq_some_iff

theorem inside_iff_within {x : α} :
    inside (Bound.active? min) (Bound.active? max) x = true ↔ Within min max x := by
  have habove (b : Bound α) : Bound.isAbove b x = true ↔
      if b.inclusive then Quantity.le b.value x = true else Quantity.lt b.value x = true := by
    unfold Bound.isAbove
    split <;> rfl
  have hbelow (b : Bound α) : Bound.isBelow b x = true ↔
      if b.inclusive then Quantity.le x b.value = true else Quantity.lt x b.value = true := by
    unfold Bound.isBelow
    split <;> rfl
  simp only [inside, Bool.and_eq_true, Option.all_eq_true, active?_eq_some_iff, and_imp, habove,
    hbelow]
  exact ⟨fun h => ⟨h.1, h.2⟩, fun h => ⟨h.above, h.below⟩⟩

theorem inRange_iff :
    inRange t column min max row = true ↔
      ((∃ b, (min = some b ∨ max = some b) ∧ b.enabled = true) →
        ∃ x, (cellOf t.columns row column).asNumber = some x ∧ Within min max x) := by
  have hopen : ((Bound.active? min).isNone && (Bound.active? max).isNone) = true ↔
      ¬ ∃ b, (min = some b ∨ max = some b) ∧ b.enabled = true := by
    simp only [Bool.and_eq_true, Option.isNone_iff_eq_none, Option.eq_none_iff_forall_ne_some,
      ne_eq, active?_eq_some_iff]
    grind
  simp only [inRange, Bool.or_eq_true, hopen, Option.any_eq_true, inside_iff_within]
  exact imp_iff_not_or.symm

theorem byNumber_range_eq_ok_iff :
    byNumber t (.range column min max) rows = .ok kept ↔
      column ∈ t.columns ∧ kept = rows.filter (inRange t column min max) := by
  by_cases hcolumn : column ∈ t.columns
  · have hall : byRange (t.columns.idxOf column) (Bound.active? min) (Bound.active? max) rows =
        rows.filter (inRange t column min max) := by
      unfold byRange inRange
      split <;> rename_i hopen <;> simp [hopen, numberAt, cellOf]
    simp only [byNumber, NumberFilter.column, Table.columnIndex?_of_mem hcolumn, hall, hcolumn,
      true_and, Except.ok.injEq, eq_comm]
  · have hnone : t.columnIndex? column = none := List.idxOf?_eq_none_iff.mpr hcolumn
    simp [byNumber, NumberFilter.column, hnone, hcolumn, refuse]

end Range

/-! ## Joins -/

section Join

variable [Quantity α] {t : Table α} {filter : JoinFilter} {references : References α}
  {rows kept : List (Row α)}

/-- A join that has run over some rows asks one question of every row; excluding or not only says
which answer is wanted. -/
theorem exists_byJoin_eq_filter (h : byJoin t filter references rows = .ok kept) :
    ∃ p : Row α → Bool, (∀ row, (p row != filter.exclude) = true ↔ Joins filter t references row) ∧
      ∀ exclude others, byJoin t { filter with exclude } references others =
        .ok (others.filter fun row => p row != exclude) := by
  obtain ⟨reference, hreference, h⟩ := bind_eq_ok_iff.mp h
  obtain ⟨own, hown, h⟩ := bind_eq_ok_iff.mp h
  obtain ⟨theirs, htheirs, -⟩ := bind_eq_ok_iff.mp h
  obtain ⟨name, hname, hget⟩ := referenceTable_eq_ok_iff.mp hreference
  refine ⟨fun row => (reference.rowKeys filter.keyColumns).contains
    (RowKey.ofRow row (Aggregation.positions t filter.keyColumns)), fun row => ?_,
    fun exclude others => ?_⟩
  · have hjoins : Joins filter t references row ↔
        (RowKey.ofRow row (Aggregation.positions t filter.keyColumns) ∈
          reference.rowKeys filter.keyColumns ↔ filter.exclude = false) := by
      simp [Joins, hname, hget, Table.rowKeys]
    rw [hjoins, ← List.contains_iff_mem]
    cases filter.exclude <;> simp
  · exact byJoin_eq hname hget (mem_columns_of_keyPositions hown)
      (mem_columns_of_keyPositions htheirs)

end Join

/-! ## Cutting a range -/

section Cut

open Quantity

variable [WireQuantity α] [LawfulQuantity α] [SignedZeroLaws α] [EqualityLaws α] {v x : α}

/-- Of two bounds at one number, of which one is inclusive, every number meets exactly one. -/
theorem isBelow_eq_not_isAbove (hv : isNaN v = false) (hx : isNaN x = false)
    (enabled inclusive : Bool) :
    Bound.isBelow ⟨v, enabled, inclusive⟩ x = !Bound.isAbove ⟨v, enabled, !inclusive⟩ x := by
  cases inclusive with
  | true => exact le_eq_not_lt hx hv
  | false =>
    change lt x v = !le v x
    rw [le_eq_not_lt hv hx, Bool.not_not]

/-- What is below a number inside an upper bound is itself inside the bound. -/
theorem isBelow_of_isBelow {b cut : Bound α} (hcut : Bound.isBelow b cut.value = true)
    (h : Bound.isBelow cut x = true) : Bound.isBelow b x = true := by
  have hle : le x cut.value = true := by
    unfold Bound.isBelow at h
    split at h
    · exact h
    · exact le_of_lt h
  unfold Bound.isBelow at hcut ⊢
  split at hcut <;> rename_i hinclusive
  · rw [if_pos hinclusive]
    exact Quantity.le_trans hle hcut
  · rw [if_neg hinclusive]
    exact Quantity.lt_of_le_of_lt hle hcut

/-- What is above a number inside a lower bound is itself inside the bound. -/
theorem isAbove_of_isAbove {b cut : Bound α} (hcut : Bound.isAbove b cut.value = true)
    (h : Bound.isAbove cut x = true) : Bound.isAbove b x = true := by
  have hle : le cut.value x = true := by
    unfold Bound.isAbove at h
    split at h
    · exact h
    · exact le_of_lt h
  unfold Bound.isAbove at hcut ⊢
  split at hcut <;> rename_i hinclusive
  · rw [if_pos hinclusive]
    exact Quantity.le_trans hcut hle
  · rw [if_neg hinclusive]
    exact Quantity.lt_of_lt_of_le hcut hle

omit [LawfulQuantity α] [SignedZeroLaws α] [EqualityLaws α] in
theorem isNaN_of_isBelow [UnorderedLaws α] {b : Bound α} (h : Bound.isBelow b x = true) :
    isNaN x = false := by
  unfold Bound.isBelow at h
  split at h
  · exact (isNaN_of_le h).1
  · exact (UnorderedLaws.isNaN_of_lt h).1

omit [LawfulQuantity α] [SignedZeroLaws α] [EqualityLaws α] in
theorem isNaN_of_isAbove [UnorderedLaws α] {b : Bound α} (h : Bound.isAbove b x = true) :
    isNaN x = false := by
  unfold Bound.isAbove at h
  split at h
  · exact (isNaN_of_le h).2
  · exact (UnorderedLaws.isNaN_of_lt h).2

variable {t : Table α} {column : String} {min max : Option (Bound α)} {row : Row α}

/-- The row has a number in the column, and one that is a number. -/
def hasNumber (t : Table α) (column : String) (row : Row α) : Bool :=
  (cellOf t.columns row column).asNumber.any fun x => !isNaN x

omit [LawfulQuantity α] [SignedZeroLaws α] [EqualityLaws α] in
theorem hasNumber_iff :
    hasNumber t column row = true ↔
      ∃ x, (cellOf t.columns row column).asNumber = some x ∧ isNaN x = false := by
  simp [hasNumber, Option.any_eq_true]

omit [LawfulQuantity α] [SignedZeroLaws α] [EqualityLaws α] in
theorem inRange_and_hasNumber :
    (inRange t column min max row && hasNumber t column row) =
      (cellOf t.columns row column).asNumber.any fun x =>
        inside (Bound.active? min) (Bound.active? max) x && !isNaN x := by
  unfold inRange hasNumber
  cases (cellOf t.columns row column).asNumber with
  | none => simp
  | some x =>
    cases Bound.active? min <;> cases Bound.active? max <;> simp [inside]

/-- Inside a range and below one of its numbers: the upper bound of the range follows. -/
theorem inside_below_cut [UnorderedLaws α] (cut : Bound α)
    (hcut : inside min max cut.value = true) :
    inside min (some cut) x = (inside min max x && !isNaN x && Bound.isBelow cut x) := by
  simp only [inside, Bool.and_eq_true, Option.all_eq_true] at hcut
  rw [Bool.eq_iff_iff]
  simp only [inside, Option.all_some, Bool.and_eq_true, Option.all_eq_true, Bool.not_eq_true']
  constructor
  · rintro ⟨habove, hbelow⟩
    have hmax (b : Bound α) (hb : max = some b) : Bound.isBelow b x = true :=
      isBelow_of_isBelow (hcut.2 b hb) hbelow
    exact ⟨⟨⟨habove, hmax⟩, isNaN_of_isBelow hbelow⟩, hbelow⟩
  · rintro ⟨⟨⟨habove, -⟩, -⟩, hbelow⟩
    exact ⟨habove, hbelow⟩

/-- Inside a range and above one of its numbers: the lower bound of the range follows. -/
theorem inside_above_cut [UnorderedLaws α] (cut : Bound α)
    (hcut : inside min max cut.value = true) :
    inside (some cut) max x = (inside min max x && !isNaN x && Bound.isAbove cut x) := by
  simp only [inside, Bool.and_eq_true, Option.all_eq_true] at hcut
  rw [Bool.eq_iff_iff]
  simp only [inside, Option.all_some, Bool.and_eq_true, Option.all_eq_true, Bool.not_eq_true']
  constructor
  · rintro ⟨habove, hbelow⟩
    have hmin (b : Bound α) (hb : min = some b) : Bound.isAbove b x = true :=
      isAbove_of_isAbove (hcut.1 b hb) habove
    exact ⟨⟨⟨hmin, hbelow⟩, isNaN_of_isAbove habove⟩, habove⟩
  · rintro ⟨⟨⟨-, hbelow⟩, -⟩, habove⟩
    exact ⟨habove, hbelow⟩

/-- The lower part of a range: what is below the cut. -/
theorem inRange_lower [UnorderedLaws α] (hv : Within min max v) (inclusive : Bool) :
    inRange t column min (some ⟨v, true, inclusive⟩) row =
      (inRange t column min max row && hasNumber t column row &&
        (cellOf t.columns row column).asNumber.any (Bound.isBelow ⟨v, true, inclusive⟩)) := by
  have hactive : Bound.active? (some ⟨v, true, inclusive⟩) =
      some (⟨v, true, inclusive⟩ : Bound α) := rfl
  rw [inRange_and_hasNumber, inRange, hactive]
  cases (cellOf t.columns row column).asNumber with
  | none => simp
  | some x => simp [inside_below_cut ⟨v, true, inclusive⟩ (inside_iff_within.mpr hv)]

/-- The upper part of a range: what is not below the cut. -/
theorem inRange_upper [UnorderedLaws α] (hnumber : isNaN v = false) (hv : Within min max v)
    (inclusive : Bool) :
    inRange t column (some ⟨v, true, !inclusive⟩) max row =
      (inRange t column min max row && hasNumber t column row &&
        !(cellOf t.columns row column).asNumber.any (Bound.isBelow ⟨v, true, inclusive⟩)) := by
  have hactive : Bound.active? (some ⟨v, true, !inclusive⟩) =
      some (⟨v, true, !inclusive⟩ : Bound α) := rfl
  rw [inRange_and_hasNumber, inRange, hactive]
  cases (cellOf t.columns row column).asNumber with
  | none => simp
  | some x =>
    have hinside := inside_above_cut (x := x) ⟨v, true, !inclusive⟩ (inside_iff_within.mpr hv)
    cases hx : isNaN x with
    | true => simp [hinside, hx]
    | false => simp [hinside, hx, isBelow_eq_not_isAbove hnumber hx]

end Cut

/-! ## The whole filter -/

section Run

variable [WireQuantity α] {config : Filter α} {t u : Table α} {references : References α}
  {rows kept : List (Row α)}

theorem run_eq_ok_iff :
    config.run t references = .ok u ↔
      ∃ rows kept, config.afterNumeric t (config.afterCategories t) = .ok rows ∧
        config.afterJoin t references rows = .ok kept ∧ u = t.withRows kept := by
  simp only [run, bind_eq_ok_iff, pure_eq_ok, Except.ok.injEq, exists_and_left, @eq_comm _ u]

theorem keeps_afterNumeric
    (hrange : ∀ filter, config.numeric = some filter →
      ∃ column min max, filter = .range column min max)
    (h : config.afterNumeric t rows = .ok kept) :
    Keeps (fun row => ∀ column min max, config.numeric = some (.range column min max) →
        (∃ b, (min = some b ∨ max = some b) ∧ b.enabled = true) →
          ∃ x, (cellOf t.columns row column).asNumber = some x ∧ Within min max x)
      rows kept := by
  unfold afterNumeric at h
  cases hnumeric : config.numeric with
  | none =>
    rw [hnumeric] at h
    cases h
    exact .all nofun
  | some filter =>
    obtain ⟨column, min, max, rfl⟩ := hrange filter hnumeric
    rw [hnumeric] at h
    obtain ⟨-, rfl⟩ := byNumber_range_eq_ok_iff.mp h
    refine .filter fun row => ?_
    rw [inRange_iff]
    simp

/-- The join of a filter that has run asks one question of every row. -/
theorem exists_afterJoin_eq_filter (h : config.afterJoin t references rows = .ok kept) :
    ∃ p : Row α → Bool,
      (∀ row, p row = true ↔ ∀ filter, config.join = some filter → filter.enabled = true →
        Joins filter t references row) ∧
      ∀ others, config.afterJoin t references others = .ok (others.filter p) := by
  have hactive (filter : JoinFilter) : config.activeJoin? = some filter ↔
      config.join = some filter ∧ filter.enabled = true := Option.filter_eq_some_iff
  simp only [← and_imp, ← hactive]
  unfold afterJoin at h ⊢
  cases hjoin : config.activeJoin? with
  | none => exact ⟨fun _ => true, by simp, by simp⟩
  | some filter =>
    rw [hjoin] at h
    obtain ⟨p, hp, heq⟩ := exists_byJoin_eq_filter h
    refine ⟨fun row => p row != filter.exclude, fun row => ?_, heq filter.exclude⟩
    simpa using hp row

/-- Excluding instead of keeping, a join leaves the other rows of those it is given. -/
theorem splits_run_exclude {filter : JoinFilter} (hjoin : config.join = some filter)
    (henabled : filter.enabled = true) (h : config.run t references = .ok (t.withRows kept)) :
    ∃ base others,
      { config with join := none }.run t references = .ok (t.withRows base) ∧
        { config with join := some { filter with exclude := !filter.exclude } }.run t references =
          .ok (t.withRows others) ∧
        Splits base kept others := by
  obtain ⟨base, kept', hbase, hkept, heq⟩ := run_eq_ok_iff.mp h
  obtain rfl : kept = kept' := congrArg Table.rows heq
  have hactive : config.activeJoin? = some filter := Option.filter_eq_some_iff.mpr ⟨hjoin, henabled⟩
  rw [afterJoin, hactive] at hkept
  obtain ⟨p, -, hfilter⟩ := exists_byJoin_eq_filter hkept
  have hkept' : kept = base.filter fun row => p row != filter.exclude :=
    Except.ok.inj (hkept.symm.trans (hfilter filter.exclude base))
  refine ⟨base, base.filter fun row => p row != !filter.exclude, ?_, ?_, ?_⟩
  · exact run_eq_ok_iff.mpr ⟨base, base, hbase, rfl, rfl⟩
  · refine run_eq_ok_iff.mpr ⟨base, _, hbase, ?_, rfl⟩
    rw [afterJoin, activeJoin?, Option.filter_some, if_pos henabled]
    exact hfilter _ base
  · refine ⟨_, hkept', ?_⟩
    simp

/-- A range cut at one of its numbers, with the number itself on one side, shares among its parts
the rows whose number is one. -/
theorem splits_run_cut [LawfulQuantity α] [SignedZeroLaws α] [EqualityLaws α] [UnorderedLaws α]
    {column : String} {min max : Option (Bound α)} {v : α} (inclusive : Bool)
    (hnumeric : config.numeric = some (.range column min max))
    (hnumber : Quantity.isNaN v = false) (hv : Within min max v)
    (h : config.run t references = .ok (t.withRows kept)) :
    ∃ lower upper numbers,
      { config with numeric := some (.range column min (some ⟨v, true, inclusive⟩)) }.run
          t references = .ok (t.withRows lower) ∧
        { config with numeric := some (.range column (some ⟨v, true, !inclusive⟩) max) }.run
          t references = .ok (t.withRows upper) ∧
        Keeps (fun row => ∃ x, (cellOf t.columns row column).asNumber = some x ∧
          Quantity.isNaN x = false) kept numbers ∧
        Splits numbers lower upper := by
  obtain ⟨rows, kept', hrows, hkept, heq⟩ := run_eq_ok_iff.mp h
  obtain rfl : kept = kept' := congrArg Table.rows heq
  rw [afterNumeric, hnumeric] at hrows
  obtain ⟨hcolumn, rfl⟩ := byNumber_range_eq_ok_iff.mp hrows
  obtain ⟨q, -, hjoin⟩ := exists_afterJoin_eq_filter hkept
  obtain rfl : kept = _ := Except.ok.inj (hkept.symm.trans (hjoin _))
  -- The part of the rows that another range leaves, after the same categories and the same join.
  have hrun (min' max' : Option (Bound α)) :
      { config with numeric := some (.range column min' max') }.run t references = .ok (t.withRows
        (((config.afterCategories t).filter (inRange t column min' max')).filter q)) :=
    run_eq_ok_iff.mpr ⟨_, _, byNumber_range_eq_ok_iff.mpr ⟨hcolumn, rfl⟩, hjoin _, rfl⟩
  refine ⟨_, _, _, hrun _ _, hrun _ _, .filter fun row => hasNumber_iff,
    fun row => (cellOf t.columns row column).asNumber.any (Bound.isBelow ⟨v, true, inclusive⟩),
    ?_, ?_⟩
  · simp only [List.filter_filter, inRange_lower hv inclusive]
    refine List.filter_congr fun row _ => ?_
    ac_rfl
  · simp only [List.filter_filter, inRange_upper hnumber hv inclusive]
    refine List.filter_congr fun row _ => ?_
    ac_rfl

/-- A filter with a range, or with no condition on numbers, keeps exactly the rows that it selects,
each on its own. Excluding instead of keeping, or cutting the range in two, shares the rows out. -/
theorem run_selects [LawfulQuantity α] [SignedZeroLaws α] [EqualityLaws α] [UnorderedLaws α]
    (hrange : ∀ filter, config.numeric = some filter →
      ∃ column min max, filter = .range column min max)
    (h : config.run t references = .ok u) :
    ∃ kept, u = t.withRows kept ∧ Keeps (config.Selects t references) t.rows kept ∧
      (∀ filter, config.join = some filter → filter.enabled = true →
        ∃ base others,
          { config with join := none }.run t references = .ok (t.withRows base) ∧
            { config with join := some { filter with exclude := !filter.exclude } }.run
              t references = .ok (t.withRows others) ∧
            Splits base kept others) ∧
      ∀ column min max v inclusive, config.numeric = some (.range column min max) →
        Quantity.isNaN v = false → Within min max v →
          ∃ lower upper numbers,
            { config with numeric := some (.range column min (some ⟨v, true, inclusive⟩)) }.run
                t references = .ok (t.withRows lower) ∧
              { config with numeric := some (.range column (some ⟨v, true, !inclusive⟩) max) }.run
                t references = .ok (t.withRows upper) ∧
              Keeps (fun row => ∃ x, (cellOf t.columns row column).asNumber = some x ∧
                Quantity.isNaN x = false) kept numbers ∧
              Splits numbers lower upper := by
  obtain ⟨rows, kept, hrows, hkept, rfl⟩ := run_eq_ok_iff.mp h
  refine ⟨kept, rfl, ?_, ?_, ?_⟩
  · obtain ⟨q, hq, hjoin⟩ := exists_afterJoin_eq_filter hkept
    obtain rfl : kept = _ := Except.ok.inj (hkept.symm.trans (hjoin rows))
    refine ((keeps_afterCategories config t).trans ((keeps_afterNumeric hrange hrows).trans
      (.filter hq))).congr fun row => ?_
    exact ⟨fun ⟨hcategory, hnumber, hjoin⟩ => ⟨hcategory, hnumber, hjoin⟩,
      fun hselects => ⟨hselects.category, hselects.number, hselects.join⟩⟩
  · intro filter hjoin henabled
    exact splits_run_exclude hjoin henabled h
  · intro column min max v inclusive hnumeric hnumber hv
    exact splits_run_cut inclusive hnumeric hnumber hv h

end Run

/-- Of seven rows a stale category, a category, a range with one enabled bound and a join that
excludes leave two; cut at the lower number of the two, with the number below the cut, the range
leaves one row on each side. -/
theorem run_selects_two_of_seven :
    let t : Table Float :=
      ⟨["region", "sales"],
        [[.text "North", .number 10.0], [.text "South", .number 20.0], [.empty, .number 30.0],
          [.text "North", .empty], [.text "West", .number 30.0], [.boolean true, .number 30.0],
          [.text "North", .number 5.0]]⟩
    let references : References Float := .ofList [("closed", ⟨["region"], [[.text "South"]]⟩)]
    let config : Filter Float :=
      ⟨some ⟨[("region", [.str "North", .str "South", .null]), ("zone", [])], by decide⟩,
        some (.range "sales" (some ⟨5.0, true, false⟩) (some ⟨1.0, false, true⟩)),
        some ⟨true, some "closed", ["region"], true⟩⟩
    config.run t references =
        .ok (t.withRows [[.text "North", .number 10.0], [.empty, .number 30.0]]) ∧
      Keeps (config.Selects t references) t.rows
        [[.text "North", .number 10.0], [.empty, .number 30.0]] ∧
      (∃ base others,
        { config with join := none }.run t references = .ok (t.withRows base) ∧
          Splits base [[.text "North", .number 10.0], [.empty, .number 30.0]] others) ∧
      ∃ lower upper numbers,
        { config with
          numeric := some (.range "sales" (some ⟨5.0, true, false⟩) (some ⟨10.0, true, true⟩)) }.run
            t references = .ok (t.withRows lower) ∧
          Splits numbers lower upper := by
  intro t references config
  have hrun : config.run t references =
      .ok (t.withRows [[.text "North", .number 10.0], [.empty, .number 30.0]]) := rfl
  obtain ⟨kept, hkept, hselects, hexclude, hcut⟩ :=
    run_selects (by rintro _ ⟨rfl⟩; exact ⟨_, _, _, rfl⟩) hrun
  obtain rfl : _ = kept := congrArg Table.rows hkept
  obtain ⟨base, others, hbase, -, hothers⟩ := hexclude _ rfl rfl
  have hwithin :
      Within (some (⟨5.0, true, false⟩ : Bound Float)) (some ⟨1.0, false, true⟩) 10.0 := by
    refine ⟨fun b hb _ => ?_, fun b hb henabled => ?_⟩
    · cases hb
      exact rfl
    · cases hb
      cases henabled
  obtain ⟨lower, upper, numbers, hlower, -, -, hsplits⟩ := hcut _ _ _ 10.0 true rfl rfl hwithin
  exact ⟨hrun, hselects, ⟨base, others, hbase, hothers⟩, lower, upper, numbers, hlower, hsplits⟩

end Filter
end TableSteps
