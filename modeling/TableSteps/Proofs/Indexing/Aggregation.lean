import TableSteps.Proofs.Aggregation.Adequacy
import TableSteps.Proofs.Group.Nested
import TableSteps.Proofs.Indexing.Lookup

/-! # Aggregations read by position

Groups hold the numbers of their rows. A reduction reads the rows of a group by number and their
cells by position, and a row of the output reads each result at the place of its group. The row
numbers come from the table and the positions from its columns; every result has as many values as
there are groups. -/

namespace TableSteps

open Keyed (Key)

variable {α : Type} [Quantity α]

/-! ## Positions of columns -/

section Position

variable {t : Table α} {place : Place} {name : String}

omit [Quantity α] in
theorem Table.position_lt {p : Nat} (h : t.position place name = .ok p) : p < t.columnCount := by
  unfold Table.position at h
  split at h
  · rename_i hp
    cases h
    exact Table.columnIndex?_lt hp
  · cases h

omit [Quantity α] in
theorem Aggregation.axisPositions_lt {names : List String} :
    ∀ {i : Nat} {ps : List Nat}, axisPositions t i names = .ok ps →
      ∀ p ∈ ps, p < t.columnCount := by
  induction names with
  | nil =>
    intro i ps h
    cases h
    simp
  | cons name rest ih =>
    intro i ps h
    obtain ⟨p, hp, h⟩ := bind_eq_ok_iff.mp h
    obtain ⟨others, hothers, h⟩ := bind_eq_ok_iff.mp h
    cases h
    exact List.forall_mem_cons.mpr ⟨Table.position_lt hp, ih hothers⟩

end Position

namespace Indexed

/-! ## Groups of row numbers -/

/-- A group that holds the numbers of its rows. -/
abbrev NumberedGroup (α : Type) [Quantity α] := Group (RowKey (Key α)) Nat

/-- The groups of the rows by the columns at these positions. -/
def groupRows (t : Table α) (positions : List Nat) : Indexed (List (NumberedGroup α)) :=
  groupBy (fun r => do
    let row ← item t.rows r
    rowKey positions row) (List.range t.rowCount)

/-- The cells that a group has in a column. -/
def subjectCells (t : Table α) (g : NumberedGroup α) (p : Nat) : Indexed (List (Cell α)) :=
  g.members.mapM (cellIn t p)

/-- The row of the group at a place, with the results at that place. -/
def outputRow (scope : Scope (List (Option α))) (g : NumberedGroup α) (place : Nat) :
    Indexed (Row α) := do
  let cells ← scope.entries.mapM fun (_, values) => (item values place).map Cell.ofOption
  pure (g.key.toCells ++ cells)

variable {t : Table α} {positions : List Nat}

/-- The group with its rows in place of their numbers. -/
def withRows (t : Table α) (g : NumberedGroup α) : Aggregation.AxisGroup α :=
  ⟨g.key, g.members.map (rowAt t)⟩

/-- The grouping finds the groups of the table, each with numbers of its rows. -/
theorem groupRows_eq_ok (ht : t.WellFormed) (h : ∀ p ∈ positions, p < t.columnCount) :
    ∃ groups : List (NumberedGroup α), groupRows t positions = .ok groups ∧
      groups.map (withRows t) = Aggregation.groups t positions ∧
      ∀ g ∈ groups, ∀ r ∈ g.members, r < t.rowCount := by
  refine ⟨Group.byKey (fun r => RowKey.ofRow (rowAt t r) positions) (List.range t.rowCount),
    groupBy_eq_ok fun r hr => ?_, ?_, fun g hg r hr => ?_⟩
  · have hr := List.mem_range.mp hr
    rw [item_rows hr, ok_bind, rowKey_eq_ok ht h (rowAt_mem hr)]
  · have hrows := Group.byKey_map (fun row => RowKey.ofRow row positions) (rowAt t)
      (List.range t.rowCount)
    rw [map_rowAt_range] at hrows
    exact hrows.symm
  · rw [Group.members_byKey hg] at hr
    exact List.mem_range.mp (List.mem_filter.mp hr).1

theorem subjectCells_eq_ok (ht : t.WellFormed) {p : Nat} (hp : p < t.columnCount)
    {g : NumberedGroup α} (hg : ∀ r ∈ g.members, r < t.rowCount) :
    subjectCells t g p = .ok (Aggregation.subjectCells (withRows t g) p) := by
  rw [subjectCells, mapM_eq_ok fun r hr => cellIn_eq_ok ht hp (hg r hr)]
  simp [Aggregation.subjectCells, withRows, Function.comp_def]

theorem outputRow_eq_ok {scope : Scope (List (Option α))} {g : NumberedGroup α} {place : Nat}
    (h : ∀ entry ∈ scope.entries, place < entry.2.length) :
    outputRow scope g place = .ok (Aggregation.outputRow scope (withRows t g) place) := by
  have hcells : ∀ entry ∈ scope.entries,
      (item entry.2 place).map Cell.ofOption = .ok (Cell.ofOption (entry.2.getD place none)) :=
    fun entry hentry => by rw [item_getD (h entry hentry), ok_map]
  rw [outputRow, mapM_eq_ok hcells]
  rfl

end Indexed

namespace Guarded

open Indexed (NumberedGroup withRows)

/-- The value of an entry for every group. -/
def entryValues (t : Table α) (groups : List (NumberedGroup α)) (scope : Scope (List (Option α)))
    (i : Nat) (entry : Entry) : Guarded StepError (List (Option α)) :=
  match entry.method with
  | .reduce reduction =>
    match entry.subject.single? with
    | none => settle (refuse (Aggregation.subjectPlace i) (.unusableSubject .oneColumn))
    | some column => do
      let p ← settle (t.position (Aggregation.subjectPlace i) column)
      look (groups.mapM fun g => do
        let cells ← Indexed.subjectCells t g p
        pure ((Tally.ofCells cells).result reduction))
  | .combine op =>
    match entry.subject.pair? with
    | none => settle (refuse (Aggregation.subjectPlace i) (.unusableSubject .twoNames))
    | some (left, right) => do
      let (xs, ys) ← pair scope (Aggregation.subjectPlace i) left right
      settle (.ok (xs.zipWith op.evalOption ys))

/-- All entries in order, each with the results before it in scope. -/
def evaluateEntries (t : Table α) (groups : List (NumberedGroup α)) :
    Nat → Scope (List (Option α)) → List Entry → Guarded StepError (Scope (List (Option α)))
  | _, scope, [] => settle (.ok scope)
  | i, scope, entry :: rest => do
    let values ← entryValues t groups scope i entry
    let scope ← settle
      ((scope.define entry.name values).mapError (.moveTo (Aggregation.namePlace i)))
    evaluateEntries t groups (i + 1) scope rest

def aggregate (config : Aggregation) (t : Table α) : Guarded StepError (Table α) := do
  let positions ← settle (Aggregation.axisPositions t 0 config.axis)
  let groups ← look (Indexed.groupRows t positions)
  let scope ← evaluateEntries t groups 0 .empty config.entries
  let rows ← look (groups.zipIdx.mapM fun (group, place) => Indexed.outputRow scope group place)
  settle (orTableFault (Table.ofRows (config.axis ++ scope.names) rows))

def checkEntryColumns (t : Table α) (i : Nat) : List Entry → Guarded StepError Unit
  | [] => settle (.ok ())
  | entry :: rest => do
    match entry.method, entry.subject.single? with
    | .reduce reduction, some column =>
      checkFor t reduction.needsNumbers (Aggregation.subjectPlace i) column
    | _, _ => settle (.ok ())
    checkEntryColumns t (i + 1) rest

def checkAggregation (config : Aggregation) (t : Table α) : Guarded StepError Unit := do
  settle config.checkShape
  settle (Aggregation.checkAxisColumns t 0 config.axis)
  checkEntryColumns t 0 config.entries

variable {t : Table α} {groups : List (NumberedGroup α)}

/-- The rows of all groups are rows of the table. -/
def RowsIn (t : Table α) (groups : List (NumberedGroup α)) : Prop :=
  ∀ g ∈ groups, ∀ r ∈ g.members, r < t.rowCount

theorem entryValues_eq_settle (ht : t.WellFormed) (hgroups : RowsIn t groups)
    (scope : Scope (List (Option α))) (i : Nat) (entry : Entry) :
    entryValues t groups scope i entry =
      settle (Aggregation.entryValues t (groups.map (withRows t)) scope i entry) := by
  cases hm : entry.method with
  | reduce reduction =>
    cases hc : entry.subject.single? with
    | none => simp only [entryValues, Aggregation.entryValues, hm, hc]
    | some column =>
      simp only [entryValues, Aggregation.entryValues, hm, hc]
      refine settle_bind fun p hp => ?_
      have hlt : p < t.columnCount := Table.position_lt hp
      have hvalues : ∀ g ∈ groups, (do
          let cells ← Indexed.subjectCells t g p
          pure ((Tally.ofCells cells).result reduction) : Indexed (Option α)) =
          .ok ((Tally.ofCells (Aggregation.subjectCells (withRows t g) p)).result reduction) :=
        fun g hg => by rw [Indexed.subjectCells_eq_ok ht hlt (hgroups g hg)]; rfl
      rw [Indexed.mapM_eq_ok hvalues, List.map_map]
      rfl
  | combine op =>
    cases hp : entry.subject.pair? with
    | none => simp only [entryValues, Aggregation.entryValues, hm, hp]
    | some names =>
      obtain ⟨left, right⟩ := names
      simp only [entryValues, Aggregation.entryValues, hm, hp, pair_eq_settle]
      exact settle_bind fun _ _ => rfl

theorem evaluateEntries_eq_settle (ht : t.WellFormed) (hgroups : RowsIn t groups)
    {entries : List Entry} :
    ∀ {i : Nat} {scope : Scope (List (Option α))},
      evaluateEntries t groups i scope entries =
        settle (Aggregation.evaluate t (groups.map (withRows t)) i scope entries) := by
  induction entries with
  | nil => exact rfl
  | cons entry rest ih =>
    intro i scope
    rw [evaluateEntries, entryValues_eq_settle ht hgroups, Aggregation.evaluate]
    exact settle_bind fun values _ => settle_bind fun scope _ => ih

end Guarded

/-! ## One value a group -/

namespace Aggregation

variable {t : Table α} {groups : List (AxisGroup α)}

/-- Every result in the scope has so many values. -/
def Aligned (length : Nat) (scope : Scope (List (Option α))) : Prop :=
  ∀ entry ∈ scope.entries, entry.2.length = length

omit [Quantity α] in
theorem Aligned.get? {length : Nat} {scope : Scope (List (Option α))} (h : Aligned length scope)
    {name : String} {values : List (Option α)} (hv : scope.get? name = some values) :
    values.length = length := by
  obtain ⟨before, after, hentries, -⟩ := List.lookup_eq_some_iff.mp hv
  exact h (name, values) (by rw [hentries]; simp)

theorem length_entryValues {scope : Scope (List (Option α))} (h : Aligned groups.length scope)
    {i : Nat} {entry : Entry} {values : List (Option α)}
    (hv : entryValues t groups scope i entry = .ok values) : values.length = groups.length := by
  obtain ⟨reduction, column, p, -, -, -, rfl⟩ |
    ⟨op, left, right, xs, ys, -, -, hxs, hys, rfl⟩ := entryValues_eq_ok hv
  · rw [List.length_map]
  · rw [List.length_zipWith, h.get? hxs, h.get? hys, Nat.min_self]

theorem aligned_evaluate {entries : List Entry} :
    ∀ {i : Nat} {scope out : Scope (List (Option α))}, Aligned groups.length scope →
      evaluate t groups i scope entries = .ok out → Aligned groups.length out := by
  induction entries with
  | nil =>
    intro i scope out h hout
    cases hout
    exact h
  | cons entry rest ih =>
    intro i scope out h hout
    obtain ⟨values, hvalues, -, hout⟩ := evaluate_cons_eq_ok hout
    refine ih (fun e he => ?_) hout
    rcases List.mem_append.mp he with he | he
    · exact h e he
    · rw [List.mem_singleton.mp he]
      exact length_entryValues h hvalues

end Aggregation

/-! ## The run and the check -/

namespace Guarded

open Indexed (NumberedGroup withRows)

variable {t : Table α}

theorem outputRows_eq_ok {groups : List (NumberedGroup α)} {scope : Scope (List (Option α))}
    (h : Aggregation.Aligned groups.length scope) :
    (groups.zipIdx.mapM fun (group, place) => Indexed.outputRow scope group place) =
      .ok ((groups.map (withRows t)).zipIdx.map fun (group, place) =>
        Aggregation.outputRow scope group place) := by
  have hrow : ∀ x ∈ groups.zipIdx, Indexed.outputRow scope x.1 x.2 =
      .ok (Aggregation.outputRow scope (withRows t x.1) x.2) := by
    intro x hx
    refine Indexed.outputRow_eq_ok fun entry hentry => ?_
    rw [h entry hentry]
    simpa using (List.mem_zipIdx (x := x.1) (i := x.2) hx).2.1
  refine (Indexed.mapM_eq_ok hrow).trans ?_
  rw [List.zipIdx_map, List.map_map]
  rfl

theorem aggregate_eq_settle (ht : t.WellFormed) (config : Aggregation) :
    aggregate config t = settle (config.run t) := by
  refine settle_bind fun positions hpositions => ?_
  obtain ⟨groups, hgroups, hrows, hin⟩ :=
    Indexed.groupRows_eq_ok ht (Aggregation.axisPositions_lt hpositions)
  rw [hgroups, look_ok, settle_ok_bind, evaluateEntries_eq_settle ht hin, hrows]
  refine settle_bind fun scope hscope => ?_
  -- The results were computed for the groups with rows, which are as many as those with numbers.
  have haligned : Aggregation.Aligned groups.length scope := by
    have hlength : (Aggregation.groups t positions).length = groups.length := by
      rw [← hrows, List.length_map]
    rw [← hlength]
    exact Aggregation.aligned_evaluate (by simp [Aggregation.Aligned, Scope.empty]) hscope
  rw [outputRows_eq_ok (t := t) haligned, hrows, look_ok, settle_ok_bind]

theorem checkEntryColumns_eq_settle (ht : t.WellFormed) {entries : List Entry} :
    ∀ {i : Nat}, checkEntryColumns t i entries =
      settle (Aggregation.checkEntryColumns t i entries) := by
  induction entries with
  | nil => exact rfl
  | cons entry rest ih =>
    intro i
    cases hm : entry.method with
    | reduce reduction =>
      cases hc : entry.subject.single? with
      | none =>
        simp only [checkEntryColumns, Aggregation.checkEntryColumns, hm, hc]
        exact ih
      | some column =>
        simp only [checkEntryColumns, Aggregation.checkEntryColumns, hm, hc,
          checkFor_eq_settle ht]
        exact settle_bind fun _ _ => ih
    | combine op =>
      simp only [checkEntryColumns, Aggregation.checkEntryColumns, hm]
      exact ih

theorem checkAggregation_eq_settle (ht : t.WellFormed) (config : Aggregation) :
    checkAggregation config t = settle (config.check (some t)) := by
  refine settle_bind fun _ _ => settle_bind fun _ _ => ?_
  exact checkEntryColumns_eq_settle ht

end Guarded
end TableSteps
