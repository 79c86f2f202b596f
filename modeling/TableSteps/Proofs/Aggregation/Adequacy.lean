import TableSteps.Aggregation.Check
import TableSteps.Aggregation.Run
import TableSteps.Proofs.Step.Lookup

/-! # A checked aggregation runs

The check walks the entries with a scope of names, the run with a scope of columns of results. The
two scopes have the same names before every entry. The names of the output are the axis columns and
the names that were defined, which the check has found to be distinct; every row of the output has
a cell for each. -/

namespace TableSteps.Aggregation

/-! ## The names of the output -/

theorem nodup_of_checkAxis {names : List String} :
    ∀ {i : Nat} {before : List String}, checkAxis i before names = .ok () →
      names.Nodup ∧ ∀ name ∈ names, name ∉ before := by
  induction names with
  | nil => simp
  | cons name rest ih =>
    intro i before h
    rw [checkAxis, bind_eq_ok_iff] at h
    obtain ⟨u, -, h⟩ := h
    split at h
    · cases h
    · rename_i hname
      obtain ⟨hrest, hnew⟩ := ih h
      have hbefore : name ∉ before := by simpa using hname
      have hnotin : name ∉ rest := fun hmem => hnew name hmem (by simp)
      refine ⟨List.nodup_cons.mpr ⟨hnotin, hrest⟩, ?_⟩
      intro other hother
      rcases List.mem_cons.mp hother with rfl | hother
      · exact hbefore
      · exact fun hmem => hnew other hother (List.mem_append_left _ hmem)

/-- A checked entry has a name of its own, a subject that suits its method, and leaves its name in
scope. -/
theorem checkEntry_eq_ok {axis : List String} {s u : Scope Unit} {i : Nat} {entry : Entry}
    (h : checkEntry axis s i entry = .ok u) :
    entry.name ∉ axis ∧ checkSubject s i entry = .ok () ∧ s.define entry.name () = .ok u := by
  rw [checkEntry, bind_eq_ok_iff] at h
  obtain ⟨_, -, h⟩ := h
  split at h
  · cases h
  · rename_i haxis
    obtain ⟨_, hsubject, h⟩ := bind_eq_ok_iff.mp h
    exact ⟨by simpa using haxis, hsubject, mapError_eq_ok_iff.mp h⟩

theorem names_of_checkEntries {axis : List String} {entries : List Entry} :
    ∀ {i : Nat} {s u : Scope Unit}, checkEntries axis i s entries = .ok u →
      u.names = s.names ++ entries.map Entry.name ∧
        (s.names.Nodup → u.names.Nodup) ∧ ∀ entry ∈ entries, entry.name ∉ axis := by
  induction entries with
  | nil =>
    intro i s u h
    cases h
    simp
  | cons entry rest ih =>
    intro i s u h
    rw [checkEntries, bind_eq_ok_iff] at h
    obtain ⟨s', hentry, h⟩ := h
    obtain ⟨haxis, -, hdefine⟩ := checkEntry_eq_ok hentry
    obtain ⟨hnames, hnodup, hrest⟩ := ih h
    refine ⟨?_, fun hs => hnodup (Scope.nodup_names_define hs hdefine), ?_⟩
    · rw [hnames, Scope.names_define hdefine, List.map_cons, List.append_assoc]
      rfl
    · intro other hother
      rcases List.mem_cons.mp hother with rfl | hother
      · exact haxis
      · exact hrest other hother

variable {α : Type} [Quantity α] {t : Table α}

/-! ## The results of the entries -/

omit [Quantity α] in
theorem position_eq_ok_iff {place : Place} {name : String} {p : Nat} :
    t.position place name = .ok p ↔ t.columnIndex? name = some p := by
  unfold Table.position
  cases t.columnIndex? name <;> simp [refuse]

/-- An entry has reduced a column, or combined what two entries before it have computed. -/
theorem entryValues_eq_ok {groups : List (AxisGroup α)} {scope : Scope (List (Option α))} {i : Nat}
    {entry : Entry} {values : List (Option α)} (h : entryValues t groups scope i entry = .ok values) :
    (∃ reduction column p, entry.method = .reduce reduction ∧ entry.subject = .single column ∧
      t.columnIndex? column = some p ∧
      values = groups.map fun g => (Tally.ofCells (subjectCells g p)).result reduction) ∨
    ∃ op left right xs ys, entry.method = .combine op ∧ entry.subject = .many [left, right] ∧
      scope.get? left = some xs ∧ scope.get? right = some ys ∧
      values = xs.zipWith op.evalOption ys := by
  unfold entryValues at h
  split at h
  · rename_i reduction hmethod
    cases hsubject : entry.subject with
    | many names =>
      rw [hsubject] at h
      cases h
    | single column =>
      rw [hsubject] at h
      obtain ⟨p, hp, hvalues⟩ := bind_eq_ok_iff.mp h
      cases hvalues
      exact .inl ⟨reduction, column, p, hmethod, rfl, position_eq_ok_iff.mp hp, rfl⟩
  · rename_i op hmethod
    split at h
    · cases h
    · rename_i left right hpair
      have hsubject : entry.subject = .many [left, right] := by
        unfold Subject.pair? at hpair
        split at hpair
        · rename_i hsubject
          cases hpair
          exact hsubject
        · cases hpair
      obtain ⟨⟨xs, ys⟩, hxy, hvalues⟩ := bind_eq_ok_iff.mp h
      cases hvalues
      obtain ⟨hxs, hys⟩ := Scope.get?_of_pair hxy
      exact .inr ⟨op, left, right, xs, ys, hmethod, hsubject, hxs, hys, rfl⟩

/-- The first entry has put its results into the scope that the other entries run in. -/
theorem evaluate_cons_eq_ok {groups : List (AxisGroup α)} {scope out : Scope (List (Option α))}
    {i : Nat} {entry : Entry} {rest : List Entry}
    (h : evaluate t groups i scope (entry :: rest) = .ok out) :
    ∃ values, entryValues t groups scope i entry = .ok values ∧
      scope.define entry.name values = .ok ⟨scope.entries ++ [(entry.name, values)]⟩ ∧
      evaluate t groups (i + 1) ⟨scope.entries ++ [(entry.name, values)]⟩ rest = .ok out := by
  obtain ⟨values, hvalues, h⟩ := bind_eq_ok_iff.mp h
  obtain ⟨next, hnext, h⟩ := bind_eq_ok_iff.mp h
  have hdefine := mapError_eq_ok_iff.mp hnext
  obtain ⟨-, rfl⟩ := Scope.define_eq_ok_iff.mp hdefine
  exact ⟨values, hvalues, hdefine, h⟩

omit [Quantity α] in
theorem axisPositions_of_check {names : List String} :
    ∀ {i j : Nat}, checkAxisColumns t i names = .ok () →
      ∃ ps, axisPositions t j names = .ok ps ∧ ps.length = names.length := by
  induction names with
  | nil => intro i j _; exact ⟨[], rfl, rfl⟩
  | cons name rest ih =>
    intro i j h
    rw [checkAxisColumns, bind_eq_ok_iff] at h
    obtain ⟨_, hcolumn, h⟩ := h
    obtain ⟨p, hp⟩ := Table.exists_columnIndex? (Table.checkColumn_eq_ok_iff.mp hcolumn)
    obtain ⟨ps, hps, hlength⟩ := ih (j := j + 1) h
    refine ⟨p :: ps, ?_, by simp [hlength]⟩
    simp [axisPositions, Table.position, hp, hps]

theorem checkEntryColumns_cons {i : Nat} {entry : Entry} {rest : List Entry}
    (h : checkEntryColumns t i (entry :: rest) = .ok ()) :
    (∀ reduction column, entry.method = .reduce reduction → entry.subject.single? = some column →
      column ∈ t.columns) ∧ checkEntryColumns t (i + 1) rest = .ok () := by
  rw [checkEntryColumns] at h
  split at h
  · rename_i reduction column hmethod hsingle
    obtain ⟨_, hcolumn, hrest⟩ := bind_eq_ok_iff.mp h
    refine ⟨?_, hrest⟩
    intro reduction' column' hmethod' hsingle'
    rw [hsingle, Option.some.injEq] at hsingle'
    exact hsingle' ▸ Table.mem_columns_of_checkFor hcolumn
  · rename_i hother
    refine ⟨?_, h⟩
    intro reduction column hmethod hsingle
    exact absurd hsingle (hother reduction column hmethod)

/-- The column of a reduction is there, and the operands of a combined entry are in scope. -/
theorem entryValues_of_check (groups : List (AxisGroup α)) {s : Scope Unit}
    {scope : Scope (List (Option α))} {i : Nat} {entry : Entry} (hs : s.names = scope.names)
    (hsubject : checkSubject s i entry = .ok ())
    (hcolumn : ∀ reduction column, entry.method = .reduce reduction →
      entry.subject.single? = some column → column ∈ t.columns) :
    ∃ values, entryValues t groups scope i entry = .ok values := by
  unfold checkSubject at hsubject
  unfold entryValues
  cases hmethod : entry.method with
  | reduce reduction =>
    rw [hmethod] at hsubject
    cases hsingle : entry.subject.single? with
    | none =>
      rw [hsingle] at hsubject
      cases hsubject
    | some column =>
      obtain ⟨p, hp⟩ := Table.exists_columnIndex? (hcolumn reduction column hmethod hsingle)
      simp [Table.position, hp]
  | combine op =>
    rw [hmethod] at hsubject
    cases hpair : entry.subject.pair? with
    | none =>
      rw [hpair] at hsubject
      cases hsubject
    | some operands =>
      rw [hpair] at hsubject
      obtain ⟨v, hv, -⟩ := map_eq_ok_iff.mp hsubject
      obtain ⟨xs, ys, -, -, hxy⟩ := Scope.pair_of_names hs hv
      simp [hxy]

/-- Every entry that the check has passed gets its values, and both scopes get its name. -/
theorem evaluate_of_check {axis : List String} (groups : List (AxisGroup α))
    {entries : List Entry} :
    ∀ {i : Nat} {s u : Scope Unit} {scope : Scope (List (Option α))},
      s.names = scope.names → checkEntries axis i s entries = .ok u →
      checkEntryColumns t i entries = .ok () →
      ∃ out, evaluate t groups i scope entries = .ok out ∧ u.names = out.names := by
  induction entries with
  | nil =>
    intro i s u scope hs h _
    cases h
    exact ⟨scope, rfl, hs⟩
  | cons entry rest ih =>
    intro i s u scope hs h hcolumns
    rw [checkEntries, bind_eq_ok_iff] at h
    obtain ⟨s', hentry, h⟩ := h
    obtain ⟨-, hsubject, hdefine⟩ := checkEntry_eq_ok hentry
    obtain ⟨hcolumn, hcolumns⟩ := checkEntryColumns_cons hcolumns
    obtain ⟨values, hvalues⟩ := entryValues_of_check groups hs hsubject hcolumn
    have hscope := Scope.define_of_names hs hdefine values
    have hs' : s'.names = Scope.names ⟨scope.entries ++ [(entry.name, values)]⟩ := by
      rw [Scope.names_define hdefine, Scope.names_define hscope, hs]
    obtain ⟨out, hout, hnames⟩ := ih hs' h hcolumns
    refine ⟨out, ?_, hnames⟩
    rw [evaluate, hvalues]
    simp only [hscope, ok_mapError, ok_bind]
    exact hout

/-- A config is checked alike with tables whose columns have the same names, the same of them
numeric. -/
theorem check_congr {u : Table α} (hcolumns : t.columns = u.columns)
    (hnumeric : t.isNumericColumn = u.isNumericColumn) (config : Aggregation) :
    config.check (some t) = config.check (some u) := by
  have haxis (i : Nat) (names : List String) :
      checkAxisColumns t i names = checkAxisColumns u i names := by
    induction names generalizing i with
    | nil => rfl
    | cons name rest ih =>
      rw [checkAxisColumns, checkAxisColumns, Table.checkColumn_congr hcolumns, ih]
  have hentries (i : Nat) (entries : List Entry) :
      checkEntryColumns t i entries = checkEntryColumns u i entries := by
    induction entries generalizing i with
    | nil => rfl
    | cons entry rest ih =>
      rw [checkEntryColumns, checkEntryColumns, Table.checkFor_congr hcolumns hnumeric, ih]
  simp only [check, checkColumns, haxis, hentries]

/-! ## The output -/

/-- The key of a group is the key of a row. -/
theorem exists_ofRow_of_mem_groups {positions : List Nat} {g : AxisGroup α}
    (h : g ∈ groups t positions) : ∃ row ∈ t.rows, g.key = RowKey.ofRow row positions := by
  have hkey : g.key ∈ (groups t positions).map Group.key := List.mem_map_of_mem h
  rw [groups, Group.keys_byKey, List.mem_eraseDups, List.mem_map] at hkey
  obtain ⟨row, hrow, hkey⟩ := hkey
  exact ⟨row, hrow, hkey.symm⟩

/-- The key of a group has a cell for every position. -/
theorem length_key {positions : List Nat} {g : AxisGroup α} (h : g ∈ groups t positions) :
    g.key.toCells.length = positions.length := by
  obtain ⟨row, -, hrow⟩ := exists_ofRow_of_mem_groups h
  simp [hrow, RowKey.toCells, RowKey.ofRow]

omit [Quantity α] in
theorem orTableFault_eq_ok_iff {x : Except TableFault (Table α)} {u : Table α} :
    orTableFault x = .ok u ↔ x = .ok u := by
  cases x <;> simp [orTableFault]

omit [Quantity α] in
theorem exists_ofRows {columns : List String} {rows : List (Row α)} (hnodup : columns.Nodup)
    (hwidth : ∀ row ∈ rows, row.length = columns.length) :
    ∃ u, orTableFault (Table.ofRows columns rows) = .ok u := by
  exact ⟨_, orTableFault_eq_ok_iff.mpr (Table.ofRows_eq_ok_iff.mpr ⟨rfl, hnodup, hwidth⟩)⟩

theorem run_of_check {config : Aggregation} (h : config.check (some t) = .ok ()) :
    ∃ u, config.run t = .ok u := by
  obtain ⟨hshape, hcolumns⟩ := check_bind_eq_ok_iff.mp h
  obtain ⟨haxis, hshape⟩ := check_bind_eq_ok_iff.mp hshape
  obtain ⟨names, hentries, -⟩ := bind_eq_ok_iff.mp hshape
  obtain ⟨haxisColumns, hentryColumns⟩ := check_bind_eq_ok_iff.mp hcolumns
  obtain ⟨ps, hps, hlength⟩ := axisPositions_of_check (j := 0) haxisColumns
  have hempty : (Scope.empty : Scope Unit).names = (Scope.empty : Scope (List (Option α))).names :=
    rfl
  obtain ⟨scope, hscope, hnames⟩ :=
    evaluate_of_check (groups t ps) hempty hentries hentryColumns
  simp only [run, hps, hscope, ok_bind]
  -- The check has made sure of distinct names; the widths are those of keys and of the scope.
  refine exists_ofRows ?_ ?_
  · obtain ⟨hdefined, hnodup, hdisjoint⟩ := names_of_checkEntries hentries
    rw [← hnames]
    refine List.nodup_append.mpr ⟨(nodup_of_checkAxis haxis).1, hnodup List.nodup_nil, ?_⟩
    rintro a ha b hb rfl
    rw [hdefined] at hb
    obtain ⟨entry, hentry, rfl⟩ := List.mem_map.mp hb
    exact hdisjoint entry hentry ha
  · intro row hrow
    obtain ⟨⟨group, position⟩, hgroup, rfl⟩ := List.mem_map.mp hrow
    have hmem : group ∈ groups t ps := List.fst_mem_of_mem_zipIdx hgroup
    simp [outputRow, Scope.names, length_key hmem, hlength]

end TableSteps.Aggregation
