import TableSteps.Proofs.Aggregation.Adequacy
import TableSteps.Proofs.Binary64.Lawful
import TableSteps.Proofs.Group.Nested
import TableSteps.Proofs.Reduction.Parts

/-! # Rolling up

A table that was aggregated by some columns can be aggregated again by fewer of them. For counts,
maxima and minima this gives what aggregating once by the fewer columns gives, in the same order of
rows.

A row of the first output stands for a group of rows of the table. Its key cells are those of the
group, and a cell made from a key has that key; so the rows of the output fall into groups as the
rows of the table do, and the parts of such a group are the groups of the first run. -/

namespace TableSteps

/-- The same columns, and row by row the same cells but for the sign of zeros. -/
def Table.Agrees {α : Type} [Quantity α] (t u : Table α) : Prop :=
  t.columns = u.columns ∧ List.Forall₂ (List.Forall₂ Cell.Agrees) t.rows u.rows

namespace Aggregation

open Keyed (Key)

variable {α : Type} [Quantity α]

/-! ## One entry -/

/-- The aggregation that reduces one column. -/
def reducing (axis : List String) (name subject : String) (reduction : Reduction) : Aggregation :=
  ⟨axis, [⟨name, .single subject, .reduce reduction⟩]⟩

/-- Where the columns of these names stand. -/
def positions (t : Table α) (names : List String) : List Nat :=
  names.map fun name => t.columns.idxOf name

/-- The row of a group: its key, and the value of one column over its members. -/
def reducedRow (reduction : Reduction) (position : Nat) (g : AxisGroup α) : Row α :=
  g.key.toCells ++ [.ofOption ((Tally.ofCells (subjectCells g position)).result reduction)]

variable {t : Table α} {axis : List String} {name subject : String} {reduction : Reduction}

omit [Quantity α] in
theorem axisPositions_of_mem {names : List String} :
    ∀ {i : Nat}, (∀ name ∈ names, name ∈ t.columns) →
      axisPositions t i names = .ok (positions t names) := by
  induction names with
  | nil => exact fun _ => rfl
  | cons name rest ih =>
    intro i h
    rw [axisPositions, Table.position, Table.columnIndex?_of_mem (h name List.mem_cons_self), ok_bind,
      ih fun other hother => h other (List.mem_cons_of_mem _ hother)]
    rfl

omit [Quantity α] in
theorem axisPositions_eq_ok {names : List String} :
    ∀ {i : Nat} {ps : List Nat}, axisPositions t i names = .ok ps →
      (∀ name ∈ names, name ∈ t.columns) ∧ ps = positions t names := by
  induction names with
  | nil =>
    intro i ps h
    cases h
    exact ⟨by simp, rfl⟩
  | cons name rest ih =>
    intro i ps h
    obtain ⟨p, hp, h⟩ := bind_eq_ok_iff.mp h
    obtain ⟨others, hothers, h⟩ := bind_eq_ok_iff.mp h
    cases h
    obtain ⟨hmem, rfl⟩ := ih hothers
    have hindex := position_eq_ok_iff.mp hp
    exact ⟨List.forall_mem_cons.mpr ⟨mem_of_idxOf? hindex, hmem⟩,
      congrArg (· :: positions t rest) (idxOf_of_idxOf? hindex).symm⟩

/-- The axis columns are there, and the output has one row for every group by them. -/
theorem run_eq_ok {config : Aggregation} {u : Table α} (h : config.run t = .ok u) :
    (∀ name ∈ config.axis, name ∈ t.columns) ∧ u.WellFormed ∧
      ∃ scope : Scope (List (Option α)),
        evaluate t (groups t (positions t config.axis)) 0 .empty config.entries = .ok scope ∧
        u = ⟨config.axis ++ scope.names, (groups t (positions t config.axis)).zipIdx.map
          fun (g, i) => outputRow scope g i⟩ := by
  obtain ⟨ps, hps, h⟩ := bind_eq_ok_iff.mp h
  obtain ⟨scope, hscope, h⟩ := bind_eq_ok_iff.mp h
  obtain ⟨haxis, rfl⟩ := axisPositions_eq_ok hps
  obtain ⟨hu, hwell⟩ := Table.ofRows_eq_ok_iff.mp (orTableFault_eq_ok_iff.mp h)
  exact ⟨haxis, hwell, scope, hscope, hu⟩

theorem map_outputRow_zipIdx (gs : List (AxisGroup α)) (value : AxisGroup α → Option α) :
    (gs.zipIdx.map fun (g, i) => outputRow ⟨[(name, gs.map value)]⟩ g i) =
      gs.map fun g => g.key.toCells ++ [.ofOption (value g)] := by
  refine List.ext_getElem (by simp) fun i hi hi' => ?_
  have hlt : i < gs.length := by simpa using hi
  simp [outputRow, hlt]

/-- The output of an aggregation that reduces one column. -/
theorem run_reducing (reduction : Reduction) (hnodup : axis.Nodup)
    (haxis : ∀ name ∈ axis, name ∈ t.columns)
    (hsubject : subject ∈ t.columns) (hname : name ∉ axis) :
    (reducing axis name subject reduction).run t =
      .ok ⟨axis ++ [name],
        (groups t (positions t axis)).map (reducedRow reduction (t.columns.idxOf subject))⟩ := by
  have hcolumns : (axis ++ [name]).Nodup := by
    refine List.nodup_append.mpr ⟨hnodup, by simp, fun a ha b hb => ?_⟩
    rw [List.mem_singleton.mp hb]
    rintro rfl
    exact hname ha
  have hwidth : ∀ row ∈ (groups t (positions t axis)).map
      (reducedRow reduction (t.columns.idxOf subject)), row.length = (axis ++ [name]).length := by
    intro row hrow
    obtain ⟨g, hg, rfl⟩ := List.mem_map.mp hrow
    simp [reducedRow, length_key hg, positions]
  have hentries : evaluate t (groups t (positions t axis)) 0 .empty
      [⟨name, .single subject, .reduce reduction⟩] =
      .ok ⟨[(name, (groups t (positions t axis)).map fun g =>
        (Tally.ofCells (subjectCells g (t.columns.idxOf subject))).result reduction)]⟩ := by
    simp [evaluate, entryValues, Subject.single?, Table.position,
      Table.columnIndex?_of_mem hsubject, Scope.define, Scope.empty, Scope.contains, Scope.names]
  simp only [run, reducing, axisPositions_of_mem haxis, ok_bind, hentries, map_outputRow_zipIdx]
  exact orTableFault_eq_ok_iff.mpr (Table.ofRows_eq_ok_iff.mpr ⟨rfl, hcolumns, hwidth⟩)

/-! ## Aggregating the output again -/

section Again

variable {fine coarse : List String} {inner : String} {position : Nat}

omit [Quantity α] in
theorem getD_map_idxOf {β : Type} {names : List String} (h : name ∈ names) (f : String → β) (d : β) :
    (names.map f).getD (names.idxOf name) d = f name := by
  have hlt : names.idxOf name < names.length := List.idxOf_lt_length_iff.mpr h
  rw [List.getD_eq_getElem _ _ (by simpa using hlt), List.getElem_map, List.getElem_idxOf]

/-- A fine key without the columns that a coarse one lacks. -/
def coarsen (fine coarse : List String) (k : RowKey (Key α)) : RowKey (Key α) :=
  ⟨coarse.map fun name => k.values.getD (fine.idxOf name) .empty⟩

theorem coarsen_ofRow (hcoarse : ∀ name ∈ coarse, name ∈ fine) (row : Row α) :
    coarsen fine coarse (RowKey.ofRow row (positions t fine)) =
      RowKey.ofRow row (positions t coarse) := by
  simp only [coarsen, RowKey.ofRow, positions, List.map_map]
  refine congrArg RowKey.mk (List.map_congr_left fun name hname => ?_)
  exact getD_map_idxOf (hcoarse name hname) _ _

/-- A row that begins with the cells of a group's key has the coarse part of that key, whatever
stands behind them. -/
theorem ofRow_toCells_append [LawfulQuantity α] (hcoarse : ∀ name ∈ coarse, name ∈ fine)
    {g : AxisGroup α} (hg : g ∈ groups t (positions t fine)) {more : List String}
    {rows : List (Row α)} (rest : Row α) :
    RowKey.ofRow (g.key.toCells ++ rest) (positions ⟨fine ++ more, rows⟩ coarse) =
      coarsen fine coarse g.key := by
  obtain ⟨row, -, hrow⟩ := exists_ofRow_of_mem_groups hg
  have hcells : g.key.toCells =
      fine.map fun name => (cellAt row (t.columns.idxOf name)).key.cell := by
    simp [hrow, RowKey.toCells, RowKey.ofRow, positions]
  have hcoarsen : coarsen fine coarse g.key = RowKey.ofRow row (positions t coarse) := by
    rw [hrow, coarsen_ofRow hcoarse]
  rw [hcoarsen]
  simp only [RowKey.ofRow, positions, List.map_map]
  refine congrArg RowKey.mk (List.map_congr_left fun name hname => ?_)
  have hfine := hcoarse name hname
  have hcell : cellAt (g.key.toCells ++ rest) (fine.idxOf name) =
      (cellAt row (t.columns.idxOf name)).key.cell := by
    have hlt : fine.idxOf name < g.key.toCells.length := by
      simpa [hcells] using List.idxOf_lt_length_iff.mpr hfine
    rw [cellAt, List.getD_append _ _ _ _ hlt, hcells, getD_map_idxOf hfine]
  rw [Function.comp_apply, List.idxOf_append_of_mem hfine, hcell, Cell.key_cell_key]
  rfl

/-- The rows that the first run puts out, grouped by fewer columns. -/
theorem groups_reduced [LawfulQuantity α] (hcoarse : ∀ name ∈ coarse, name ∈ fine) :
    let u : Table α := ⟨fine ++ [inner], (groups t (positions t fine)).map
      (reducedRow reduction position)⟩
    groups u (positions u coarse) = (groups t (positions t coarse)).map fun g =>
      ⟨g.key, ((groups t (positions t fine)).filter fun part =>
        coarsen fine coarse part.key = g.key).map (reducedRow reduction position)⟩ := by
  intro u
  have hkeys : groups t (positions t coarse) =
      Group.byKey (fun row => coarsen fine coarse (RowKey.ofRow row (positions t fine))) t.rows := by
    simp only [coarsen_ofRow hcoarse]
    rfl
  rw [hkeys]
  exact Group.byKey_map_byKey fun g hg => ofRow_toCells_append hcoarse hg _

/-- The cells that the second run reduces are the values of the first run. -/
theorem subjectCells_reduced {k : RowKey (Key α)} {parts : List (AxisGroup α)} {width : Nat}
    (hwidth : ∀ part ∈ parts, part.key.toCells.length = width) :
    subjectCells ⟨k, parts.map (reducedRow reduction position)⟩ width =
      parts.map fun part =>
        .ofOption ((Tally.ofCells (subjectCells part position)).result reduction) := by
  rw [subjectCells, List.map_map]
  refine List.map_congr_left fun part hpart => ?_
  simp [cellAt, reducedRow, ← hwidth part hpart]

/-- The cells of a coarse group, split up by its fine groups. -/
def parts (t : Table α) (fine coarse : List String) (position : Nat) (g : AxisGroup α) :
    List (List (Cell α)) :=
  ((groups t (positions t fine)).filter fun part => coarsen fine coarse part.key = g.key).map
    (subjectCells · position)

theorem flatten_parts_perm (position : Nat) (hcoarse : ∀ name ∈ coarse, name ∈ fine)
    {g : AxisGroup α}
    (hg : g ∈ groups t (positions t coarse)) :
    (parts t fine coarse position g).flatten.Perm (subjectCells g position) := by
  have hmembers : g.members = t.rows.filter fun row =>
      coarsen fine coarse (RowKey.ofRow row (positions t fine)) = g.key := by
    simp only [coarsen_ofRow hcoarse]
    exact Group.members_byKey hg
  have hflatten : (parts t fine coarse position g).flatten =
      (((groups t (positions t fine)).filter fun part =>
        coarsen fine coarse part.key = g.key).flatMap Group.members).map (cellAt · position) := by
    rw [List.map_flatMap]
    rfl
  rw [hflatten, subjectCells, hmembers]
  exact (Group.flatMap_filter_byKey_perm _ _ _ _).map _

/-- Aggregating the output again reduces, for every coarse group, the values of its parts. -/
theorem run_reducing_again [LawfulQuantity α] {final : String} (first second : Reduction)
    (hfine : fine.Nodup) (hnodup : coarse.Nodup) (hcoarse : ∀ name ∈ coarse, name ∈ fine)
    (haxis : ∀ name ∈ fine, name ∈ t.columns) (hsubject : subject ∈ t.columns)
    (hinner : inner ∉ fine) (hfinal : final ∉ coarse) :
    ∃ u, (reducing fine inner subject first).run t = .ok u ∧
      (reducing coarse final inner second).run u =
        .ok ⟨coarse ++ [final], (groups t (positions t coarse)).map fun g =>
          g.key.toCells ++ [.ofOption ((Tally.ofCells
            ((parts t fine coarse (t.columns.idxOf subject) g).map fun part =>
              .ofOption ((Tally.ofCells part).result first))).result second)]⟩ := by
  refine ⟨_, run_reducing first hfine haxis hsubject hinner, ?_⟩
  have hinnerAt : (fine ++ [inner]).idxOf inner = (positions t fine).length := by
    rw [List.idxOf_append_of_notMem hinner]
    simp [positions]
  rw [run_reducing second hnodup
    (fun name hname => List.mem_append_left _ (hcoarse name hname)) (by simp) hfinal,
    groups_reduced hcoarse, List.map_map, hinnerAt]
  refine congrArg (fun rows => Except.ok (Table.mk (coarse ++ [final]) rows))
    (List.map_congr_left fun g _ => ?_)
  rw [Function.comp_apply, reducedRow, parts, List.map_map,
    subjectCells_reduced fun part hpart => length_key (List.mem_filter.mp hpart).1]
  rfl

end Again

/-! ## Rolling up -/

section RollUp

variable {fine coarse : List String} {inner final : String} {position : Nat}

/-- Rows with one key agree when their values do. -/
theorem agrees_row (key : List (Cell α)) {c d : Cell α} (h : c.Agrees d) :
    List.Forall₂ Cell.Agrees (key ++ [c]) (key ++ [d]) :=
  List.rel_append (List.forall₂_same.mpr fun c _ => .refl c) (.cons h .nil)

theorem isNaN_of_mem_subjectCells [LawfulQuantity α] {ps : List Nat} {g : AxisGroup α}
    (hg : g ∈ groups t ps)
    (hnan : ∀ x, Cell.number x ∈ t.cellsAt position → Quantity.isNaN x = false) {x : α}
    (hx : x ∈ Tally.numbersIn (subjectCells g position)) : Quantity.isNaN x = false := by
  refine Tally.isNaN_of_mem_numbersIn (fun y hy => hnan y ?_) hx
  obtain ⟨row, hrow, hy⟩ := List.mem_map.mp hy
  rw [Group.members_byKey hg] at hrow
  exact hy ▸ List.mem_map_of_mem (List.mem_filter.mp hrow).1

/-- Reducing the parts of a group and then the results agrees with reducing the group, for the
largest and for the smallest number. -/
theorem agrees_parts [LawfulQuantity α] {reduction : Reduction}
    (hreduction : reduction = .max ∨ reduction = .min)
    (hcoarse : ∀ name ∈ coarse, name ∈ fine) {g : AxisGroup α}
    (hg : g ∈ groups t (positions t coarse))
    (hnan : ∀ x, Cell.number x ∈ t.cellsAt position → Quantity.isNaN x = false) :
    (Cell.ofOption ((Tally.ofCells ((parts t fine coarse position g).map fun part =>
      .ofOption ((Tally.ofCells part).result reduction))).result reduction)).Agrees
      (.ofOption ((Tally.ofCells (subjectCells g position)).result reduction)) := by
  have hperm := flatten_parts_perm position hcoarse hg
  have hnumbers : ∀ x ∈ Tally.numbersIn (subjectCells g position), Quantity.isNaN x = false :=
    fun x hx => isNaN_of_mem_subjectCells hg hnan hx
  rcases hreduction with rfl | rfl
  · exact Tally.agrees_result_of_parts ranks_greatest Tally.isBest_max hperm hnumbers
  · exact Tally.agrees_result_of_parts ranks_least Tally.isBest_min hperm hnumbers

/-- Maxima of maxima are maxima, minima of minima are minima, and counts add up to counts. -/
theorem rollUp [LawfulQuantity α] (hfine : fine.Nodup) (hnodup : coarse.Nodup)
    (hcoarse : ∀ name ∈ coarse, name ∈ fine) (haxis : ∀ name ∈ fine, name ∈ t.columns)
    (hsubject : subject ∈ t.columns) (hinner : inner ∉ fine) (hfinal : final ∉ coarse) :
    ((∀ cells, t.columnValues? subject = some cells →
        ∀ x, Cell.number x ∈ cells → Quantity.isNaN x = false) →
      ∀ reduction, reduction = .max ∨ reduction = .min → ∃ u v w,
        (reducing fine inner subject reduction).run t = .ok u ∧
        (reducing coarse final inner reduction).run u = .ok v ∧
        (reducing coarse final subject reduction).run t = .ok w ∧ v.Agrees w) ∧
    (Quantity.ExactUpTo α t.rowCount → ∃ u v,
        (reducing fine inner subject .count).run t = .ok u ∧
        (reducing coarse final inner .sum).run u = .ok v ∧
        (reducing coarse final subject .count).run t = .ok v) := by
  have hdirect (reduction : Reduction) := run_reducing reduction hnodup
    (fun name hname => haxis name (hcoarse name hname)) hsubject hfinal
  have hagain (first second : Reduction) :=
    run_reducing_again first second hfine hnodup hcoarse haxis hsubject hinner hfinal
  constructor
  · intro hnan reduction hreduction
    obtain ⟨u, hu, hv⟩ := hagain reduction reduction
    have hcells := hnan _ (by rw [Table.columnValues?, Table.columnIndex?_of_mem hsubject]; rfl)
    refine ⟨u, _, _, hu, hv, hdirect reduction, rfl, ?_⟩
    refine List.forall₂_map_left_iff.mpr (List.forall₂_map_right_iff.mpr
      (List.forall₂_same.mpr fun g hg => ?_))
    exact agrees_row _ (agrees_parts hreduction hcoarse hg hcells)
  · intro hexact
    obtain ⟨u, hu, hv⟩ := hagain .count .sum
    refine ⟨u, _, hu, hv, ?_⟩
    rw [hdirect]
    refine congrArg (fun rows => Except.ok (Table.mk (coarse ++ [final]) rows))
      (List.map_congr_left fun g hg => ?_)
    have hbound : (subjectCells g (t.columns.idxOf subject)).length ≤ t.rowCount := by
      rw [subjectCells, List.length_map, Group.members_byKey hg]
      exact List.length_filter_le _ _
    rw [reducedRow, Tally.sum_of_counts (flatten_parts_perm _ hcoarse hg) (hexact.mono hbound)]

/-- By region and year, then by region: the best sales, and the number of years with sales. -/
theorem rollUp_regions :
    let t : Table Float :=
      ⟨["region", "year", "sales"],
        [[.text "North", .number 2023.0, .number 10.0], [.text "South", .number 2024.0, .empty],
          [.text "North", .number 2024.0, .number 30.0]]⟩
    (∃ u v w, (reducing ["region", "year"] "best" "sales" .max).run t = .ok u ∧
      (reducing ["region"] "best" "best" .max).run u = .ok v ∧
      (reducing ["region"] "best" "sales" .max).run t = .ok w ∧ v.Agrees w ∧
      v = ⟨["region", "best"], [[.text "North", .number 30.0], [.text "South", .empty]]⟩) ∧
    ∃ u v, (reducing ["region", "year"] "entries" "sales" .count).run t = .ok u ∧
      (reducing ["region"] "entries" "entries" .sum).run u = .ok v ∧
      (reducing ["region"] "entries" "sales" .count).run t = .ok v ∧
      v = ⟨["region", "entries"], [[.text "North", .number 2.0], [.text "South", .number 0.0]]⟩ := by
  intro t
  have hnan : ∀ cells, t.columnValues? "sales" = some cells →
      ∀ x, Cell.number x ∈ cells → Quantity.isNaN x = false := by
    intro cells hcells x hx
    have hvalues : t.columnValues? "sales" = some [.number 10.0, .empty, .number 30.0] := rfl
    cases hvalues.symm.trans hcells
    simp only [List.mem_cons, Cell.number.injEq, reduceCtorEq, List.not_mem_nil, or_false,
      false_or] at hx
    rcases hx with rfl | rfl <;> decide +kernel
  have hexact : Quantity.ExactUpTo Float t.rowCount := by
    have hsums : ∀ m ≤ 3, ∀ n ≤ 3,
        (Quantity.ofNat m + Quantity.ofNat n : Float) = Quantity.ofNat (m + n) := by
      decide +kernel
    intro m n hsum
    have hbound : m + n ≤ 3 := hsum
    exact hsums m (by omega) n (by omega)
  obtain ⟨u, v, w, hu, hv, hw, hagrees⟩ : ∃ u v w,
      (reducing ["region", "year"] "best" "sales" .max).run t = .ok u ∧
        (reducing ["region"] "best" "best" .max).run u = .ok v ∧
        (reducing ["region"] "best" "sales" .max).run t = .ok w ∧ v.Agrees w :=
    (rollUp (by decide) (by decide) (by decide) (by decide) (by decide) (by decide)
      (by decide)).1 hnan .max (.inl rfl)
  obtain ⟨u', v', hu', hv', hcounted⟩ : ∃ u v,
      (reducing ["region", "year"] "entries" "sales" .count).run t = .ok u ∧
        (reducing ["region"] "entries" "entries" .sum).run u = .ok v ∧
        (reducing ["region"] "entries" "sales" .count).run t = .ok v :=
    (rollUp (by decide) (by decide) (by decide) (by decide) (by decide) (by decide)
      (by decide)).2 hexact
  have hyears : (reducing ["region", "year"] "best" "sales" .max).run t =
      .ok ⟨["region", "year", "best"],
        [[.text "North", .number 2023.0, .number 10.0], [.text "South", .number 2024.0, .empty],
          [.text "North", .number 2024.0, .number 30.0]]⟩ := rfl
  cases hu.symm.trans hyears
  exact ⟨⟨_, v, w, hu, hv, hw, hagrees, Except.ok.inj (hv.symm.trans rfl)⟩,
    u', v', hu', hv', hcounted, Except.ok.inj (hcounted.symm.trans rfl)⟩

end RollUp

end Aggregation
end TableSteps
