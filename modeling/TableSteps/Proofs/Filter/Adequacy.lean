import TableSteps.Filter.Check
import TableSteps.Filter.Run
import TableSteps.Proofs.Step.Lookup

/-! # A checked filter runs unless its join has nothing to join with

Everything that a filter reads in its own table was looked up by the check. What the check cannot
see is the reference of a join: a filter that passed runs exactly when its join is not active, or
the reference is there and has all key columns. -/

namespace TableSteps

/-- The reference of the join is not there, or it lacks a key column. -/
def JoinFilter.Unmatched {α : Type} (filter : JoinFilter) (references : References α) : Prop :=
  ∃ name, filter.reference = some name ∧
    (references.get? name = none ∨
      ∃ reference, references.get? name = some reference ∧
        ∃ key ∈ filter.keyColumns, key ∉ reference.columns)

namespace Filter

variable {α : Type}

/-- The filter has an active join that finds nothing to join with. -/
def Obstructed (config : Filter α) (references : References α) : Prop :=
  ∃ filter, config.activeJoin? = some filter ∧ filter.Unmatched references

variable {t : Table α}

/-! ## Joins -/

theorem keyPositions_of_mem {names : List String} :
    ∀ {i : Nat}, (∀ name ∈ names, name ∈ t.columns) →
      keyPositions t i names = .ok (names.map fun name => t.columns.idxOf name) := by
  induction names with
  | nil => exact fun _ => rfl
  | cons name rest ih =>
    intro i h
    have hrest := ih (i := i + 1) fun other hother => h other (List.mem_cons_of_mem _ hother)
    simp [keyPositions, Table.columnIndex?_of_mem (h name List.mem_cons_self), hrest]

theorem keyPositions_of_not_mem {names : List String} {key : String} (hkey : key ∉ t.columns) :
    ∀ {i : Nat}, key ∈ names → ∃ e, keyPositions t i names = .error e := by
  induction names with
  | nil => simp
  | cons name rest ih =>
    intro i h
    unfold keyPositions
    cases hp : t.columnIndex? name with
    | none => exact ⟨_, rfl⟩
    | some p =>
      have hname : name ∈ t.columns := mem_of_idxOf? hp
      have hrest : key ∈ rest := by
        rcases List.mem_cons.mp h with rfl | h
        · exact absurd hname hkey
        · exact h
      obtain ⟨e, he⟩ := ih (i := i + 1) hrest
      exact ⟨e, by simp [he]⟩

theorem mem_columns_of_keyPositions {names : List String} {i : Nat} {ps : List Nat}
    (h : keyPositions t i names = .ok ps) : ∀ name ∈ names, name ∈ t.columns := by
  intro name hname
  refine Classical.byContradiction fun hlacks => ?_
  obtain ⟨e, he⟩ := keyPositions_of_not_mem hlacks (i := i) hname
  cases h.symm.trans he

theorem checkKeyColumns_eq_ok_iff {names : List String} :
    ∀ {i : Nat}, checkKeyColumns t i names = .ok () ↔ ∀ name ∈ names, name ∈ t.columns := by
  induction names with
  | nil => simp [checkKeyColumns]
  | cons name rest ih =>
    intro i
    rw [checkKeyColumns, check_bind_eq_ok_iff, Table.checkColumn_eq_ok_iff, ih, List.forall_mem_cons]

theorem referenceTable_eq_ok_iff {filter : JoinFilter} {references : References α}
    {reference : Table α} :
    referenceTable filter references = .ok reference ↔
      ∃ source, filter.reference = some source ∧ references.get? source = some reference := by
  unfold referenceTable
  cases filter.reference with
  | none => simp [refuse]
  | some source => cases h : references.get? source <;> simp [refuse, h]

/-- A checked join names a reference. -/
theorem reference_of_checkJoin {filter : JoinFilter} (h : checkJoin filter = .ok ()) :
    ∃ name, filter.reference = some name := by
  unfold checkJoin at h
  split at h
  · cases h
  · split at h
    · rename_i hname
      cases hreference : filter.reference with
      | none => simp [hreference] at hname
      | some name => exact ⟨name, rfl⟩
    · cases h

section Join

variable [Quantity α] {filter : JoinFilter} {references : References α}

theorem byJoin_of_matched {name : String} {reference : Table α} {rows : List (Row α)}
    (hkeys : ∀ key ∈ filter.keyColumns, key ∈ t.columns) (hname : filter.reference = some name)
    (hreference : references.get? name = some reference)
    (hothers : ∀ key ∈ filter.keyColumns, key ∈ reference.columns) :
    ∃ kept, byJoin t filter references rows = .ok kept := by
  simp [byJoin, referenceTable, hname, hreference, keyPositions_of_mem hkeys,
    keyPositions_of_mem hothers]

theorem byJoin_of_unmatched (h : filter.Unmatched references) (rows : List (Row α)) :
    ∃ e, byJoin t filter references rows = .error e := by
  obtain ⟨name, hname, hnone | ⟨reference, hreference, key, hkey, hlacks⟩⟩ := h
  · simp [byJoin, referenceTable, hname, hnone, refuse]
  · obtain ⟨e, he⟩ := keyPositions_of_not_mem hlacks (i := 0) hkey
    cases hown : keyPositions t 0 filter.keyColumns with
    | error e' => simp [byJoin, referenceTable, hname, hreference, hown]
    | ok own => simp [byJoin, referenceTable, hname, hreference, hown, he]

end Join

/-! ## All filters in order -/

variable [WireQuantity α]

theorem checkShape_eq_ok_iff {config : Filter α} :
    config.checkShape = .ok () ↔
      (∀ c, config.categories = some c → checkCategories c.entries = .ok ()) ∧
      (∀ f, config.numeric = some f → checkNumeric f = .ok ()) ∧
      ∀ f, config.activeJoin? = some f → checkJoin f = .ok () := by
  unfold checkShape
  cases config.categories <;> cases config.numeric <;> cases config.activeJoin? <;>
    simp [check_bind_eq_ok_iff]

theorem checkColumns_eq_ok_iff {config : Filter α} {stale : StaleCategories} :
    config.checkColumns t stale = .ok () ↔
      (∀ c, config.categories = some c → stale = .refused →
        checkCategoryColumns t c.keys = .ok ()) ∧
      (∀ f, config.numeric = some f → t.checkNumeric (numericPlace "column") f.column = .ok ()) ∧
      ∀ f, config.activeJoin? = some f → checkKeyColumns t 0 f.keyColumns = .ok () := by
  unfold checkColumns
  cases config.categories <;> cases config.numeric <;> cases config.activeJoin? <;> cases stale <;>
    simp [check_bind_eq_ok_iff]

/-- Refusing stale categories is the stricter check. -/
theorem check_allowed_of_refused {config : Filter α}
    (h : config.check (some t) .refused = .ok ()) : config.check (some t) .allowed = .ok () := by
  obtain ⟨hshape, hcolumns⟩ := check_bind_eq_ok_iff.mp h
  obtain ⟨-, hnumeric, hjoin⟩ := checkColumns_eq_ok_iff.mp hcolumns
  exact check_bind_eq_ok_iff.mpr ⟨hshape, checkColumns_eq_ok_iff.mpr ⟨by simp, hnumeric, hjoin⟩⟩

theorem byNumber_of_check {filter : NumberFilter α} {rows : List (Row α)}
    (hnumbers : checkNumbers filter = .ok ()) (hcolumn : filter.column ∈ t.columns) :
    ∃ kept, byNumber t filter rows = .ok kept := by
  obtain ⟨p, hp⟩ := Table.exists_columnIndex? hcolumn
  unfold byNumber
  rw [hp]
  cases filter with
  | range column min max => exact ⟨_, rfl⟩
  | band column low high => exact ⟨_, rfl⟩
  | top column count ascending =>
    simp only [checkNumbers] at hnumbers
    split at hnumbers
    · cases hnumbers
    · rename_i hcount
      dsimp only
      rw [if_neg hcount]
      exact ⟨_, rfl⟩

theorem afterNumeric_of_check {config : Filter α} {stale : StaleCategories}
    (h : config.check (some t) stale = .ok ()) (rows : List (Row α)) :
    ∃ kept, config.afterNumeric t rows = .ok kept := by
  obtain ⟨hshape, hcolumns⟩ := check_bind_eq_ok_iff.mp h
  obtain ⟨-, hnumbers, -⟩ := checkShape_eq_ok_iff.mp hshape
  obtain ⟨-, hnumeric, -⟩ := checkColumns_eq_ok_iff.mp hcolumns
  unfold afterNumeric
  cases hn : config.numeric with
  | none => exact ⟨rows, rfl⟩
  | some filter =>
    obtain ⟨-, hfilter⟩ := check_bind_eq_ok_iff.mp (hnumbers filter hn)
    exact byNumber_of_check hfilter (Table.checkNumeric_eq_ok_iff.mp (hnumeric filter hn)).1

theorem run_of_check {config : Filter α} {stale : StaleCategories} {references : References α}
    (h : config.check (some t) stale = .ok ()) (hmatch : ¬ config.Obstructed references) :
    ∃ u, config.run t references = .ok u := by
  obtain ⟨kept, hkept⟩ := afterNumeric_of_check h (config.afterCategories t)
  obtain ⟨hshape, hcolumns⟩ := check_bind_eq_ok_iff.mp h
  obtain ⟨-, -, hshape⟩ := checkShape_eq_ok_iff.mp hshape
  obtain ⟨-, -, hcolumns⟩ := checkColumns_eq_ok_iff.mp hcolumns
  have hjoin : ∃ left, config.afterJoin t references kept = .ok left := by
    unfold afterJoin
    cases hactive : config.activeJoin? with
    | none => exact ⟨kept, rfl⟩
    | some filter =>
      have hmatched : ¬ filter.Unmatched references := fun hf => hmatch ⟨filter, hactive, hf⟩
      obtain ⟨name, hname⟩ := reference_of_checkJoin (hshape filter hactive)
      cases hreference : references.get? name with
      | none => exact absurd ⟨name, hname, .inl hreference⟩ hmatched
      | some reference =>
        refine byJoin_of_matched (checkKeyColumns_eq_ok_iff.mp (hcolumns filter hactive)) hname
          hreference ?_
        intro key hkey
        refine Classical.byContradiction fun hlacks => hmatched ?_
        exact ⟨name, hname, .inr ⟨reference, hreference, key, hkey, hlacks⟩⟩
  obtain ⟨left, hleft⟩ := hjoin
  exact ⟨t.withRows left, by simp [run, hkept, hleft]⟩

theorem run_of_obstructed {config : Filter α} {references : References α}
    (h : config.Obstructed references) : ∃ e, config.run t references = .error e := by
  obtain ⟨filter, hactive, hunmatched⟩ := h
  cases hkept : config.afterNumeric t (config.afterCategories t) with
  | error e => simp [run, hkept]
  | ok kept =>
    obtain ⟨e, he⟩ := byJoin_of_unmatched (t := t) hunmatched kept
    simp [run, hkept, afterJoin, hactive, he]

end Filter

end TableSteps
