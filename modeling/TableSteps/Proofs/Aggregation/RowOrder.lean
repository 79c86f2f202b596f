import TableSteps.Proofs.Aggregation.Reference
import TableSteps.Proofs.Binary64.SignedZero
import TableSteps.Proofs.Quantity.Exact
import TableSteps.Proofs.Step.ScopePairs

/-! # The order of rows

The rows of a table in another order fall into the same classes, though the classes may stand in
another order and so may the rows of each. What a class computes stays the same but for the sign of
a zero: counts always, extremes as long as numbers are compared, sums and means where sums are not
rounded, and whatever operators make of these. So the output has the same rows in some order. -/

namespace TableSteps

open Quantity

variable {α : Type}

/-- The same columns, and in some order the same rows but for the sign of zeros. -/
def Table.AgreeUnordered [Quantity α] (t u : Table α) : Prop :=
  t.columns = u.columns ∧
    ∃ rows, u.rows.Perm rows ∧ List.Forall₂ (List.Forall₂ Cell.Agree) t.rows rows

/-! ## Reductions -/

section Reductions

variable [Quantity α] [LawfulQuantity α] [EqualityLaws α] {cells cells' : List (Cell α)}

omit [LawfulQuantity α] in
theorem Quantity.rel_agree_of_agrees {x? y? : Option α}
    (h : (Cell.ofOption x?).Agrees (.ofOption y?)) : Option.Rel Agree x? y? := by
  cases x? with
  | none =>
    cases y? with
    | none => exact .none
    | some y => cases h
  | some x =>
    cases y? with
    | none => cases h
    | some y => exact .some (h.elim .inl EqualityLaws.agree_of_eqv)

/-- What a reduction makes of some cells does not hang on their order. -/
theorem Tally.agree_result_of_perm (hperm : cells.Perm cells') {reduction : Reduction}
    (hnan : reduction = .max ∨ reduction = .min → ∀ x ∈ numbersIn cells, isNaN x = false)
    (hexact : reduction = .sum ∨ reduction = .mean → ExactAddition α) :
    Option.Rel Agree ((ofCells cells).result reduction) ((ofCells cells').result reduction) := by
  have hnumbers : (numbersIn cells).Perm (numbersIn cells') := hperm.filterMap _
  have hnan' (hextreme : reduction = .max ∨ reduction = .min) :
      ∀ x ∈ numbersIn cells', isNaN x = false :=
    fun x hx => hnan hextreme x (hnumbers.mem_iff.mpr hx)
  have hsum (h : ExactAddition α) : (ofCells cells).sum = (ofCells cells').sum := by
    rw [sum_ofCells, sum_ofCells, h.foldl_eq_of_perm hnumbers]
  cases reduction with
  | sum => exact .some (.inl (hsum (hexact (.inl rfl))))
  | mean =>
    have hlength : (ofCells cells).numbers = (ofCells cells').numbers := by
      rw [numbers_ofCells, numbers_ofCells, hnumbers.length_eq]
    have hmean : (ofCells cells).result .mean = (ofCells cells').result .mean := by
      rw [result, result, hsum (hexact (.inr rfl)), hlength]
    rw [hmean]
    exact rel_agree_refl _
  | count =>
    refine .some (.inl (congrArg ofNat ?_))
    rw [cells_ofCells, cells_ofCells, hperm.countP_eq]
  | max =>
    have hbest := (isBest_max (hnan (.inl rfl))).of_perm hnumbers
    exact rel_agree_of_agrees
      (hbest.agrees ranks_greatest (hnan' (.inl rfl)) (isBest_max (hnan' (.inl rfl))))
  | min =>
    have hbest := (isBest_min (hnan (.inr rfl))).of_perm hnumbers
    exact rel_agree_of_agrees
      (hbest.agrees ranks_least (hnan' (.inr rfl)) (isBest_min (hnan' (.inr rfl))))

end Reductions

namespace Aggregation

/-! ## Classes -/

section Classes

variable [Quantity α] {t t' : Table α} {axis : List String}

theorem isNumericColumn_of_perm (hcolumns : t.columns = t'.columns)
    (hrows : t.rows.Perm t'.rows) : t.isNumericColumn = t'.isNumericColumn := by
  funext name
  unfold Table.isNumericColumn Table.columnValues? Table.columnIndex?
  rw [hcolumns]
  cases t'.columns.idxOf? name with
  | none => rfl
  | some p => exact (hrows.map (cellAt · p)).all_eq

/-- The class of a key among the rows of a table. -/
def regroup (t : Table α) (axis : List String) (c : AxisGroup α) : AxisGroup α :=
  ⟨c.key, t.rows.filter fun row => axisKey t axis row = c.key⟩

theorem axisKey_eq (hcolumns : t.columns = t'.columns) (axis : List String) :
    axisKey t axis = axisKey t' axis := by
  funext row
  rw [axisKey, axisKey, positions, positions, hcolumns]

/-- The classes of rows in another order are the same classes in another order. -/
theorem classes_perm (hcolumns : t.columns = t'.columns) (hrows : t.rows.Perm t'.rows)
    (axis : List String) : ((classes t axis).map (regroup t' axis)).Perm (classes t' axis) := by
  have hkeys : (t.rows.map (axisKey t axis)).eraseDups.Perm
      (t'.rows.map (axisKey t' axis)).eraseDups := by
    refine (List.perm_ext_iff_of_nodup (nodup_eraseDups _) (nodup_eraseDups _)).mpr fun k => ?_
    rw [List.mem_eraseDups, List.mem_eraseDups, axisKey_eq hcolumns]
    exact (hrows.map _).mem_iff
  rw [classes, classes, List.map_map]
  exact hkeys.map _

theorem members_regroup_perm (hcolumns : t.columns = t'.columns) (hrows : t.rows.Perm t'.rows)
    {c : AxisGroup α} (hc : c ∈ classes t axis) :
    c.members.Perm (regroup t' axis c).members := by
  obtain ⟨k, -, rfl⟩ := List.mem_map.mp hc
  rw [regroup, axisKey_eq hcolumns]
  exact hrows.filter _

theorem mem_rows_of_mem_classes {c : AxisGroup α} (hc : c ∈ classes t axis) {row : Row α}
    (hrow : row ∈ c.members) : row ∈ t.rows := by
  obtain ⟨k, -, rfl⟩ := List.mem_map.mp hc
  exact (List.mem_filter.mp hrow).1

end Classes

/-! ## What a class computes -/

/-- The largest and the smallest value are asked for only of values that are numbers. -/
def ComparesNumbers [Quantity α] (entries : List Entry) (columns : List String)
    (rows : List (Row α)) : Prop :=
  ∀ entry ∈ entries, entry.method = .reduce .max ∨ entry.method = .reduce .min →
    ∀ column, entry.subject = .single column → ∀ row ∈ rows, ∀ x,
      cellAt row (columns.idxOf column) = .number x → isNaN x = false

/-- Sums are exact where they are asked for. -/
def AddsExactly (α : Type) [Quantity α] (entries : List Entry) : Prop :=
  ∀ entry ∈ entries, entry.method = .reduce .sum ∨ entry.method = .reduce .mean → ExactAddition α

variable [WireQuantity α] [LawfulQuantity α] [SignedZeroLaws α] [EqualityLaws α]
variable {columns : List String} {members members' : List (Row α)}

/-- An entry gives the same for the rows of a class in another order. -/
theorem Computes.agree {before before' : Scope (Option α)} {entry : Entry} {v v' : Option α}
    (h : Computes columns members before entry v) (h' : Computes columns members' before' entry v')
    (hperm : members.Perm members') (hbefore : Scope.Paired (Option.Rel Agree) before before')
    (hnan : ComparesNumbers [entry] columns members) (hexact : AddsExactly α [entry]) :
    Option.Rel Agree v v' := by
  cases h with
  | @reduce name column reduction hcolumn =>
    cases h'
    refine Tally.agree_result_of_perm (hperm.map _) (fun hextreme x hx => ?_) fun hsum => ?_
    · refine Tally.isNaN_of_mem_numbersIn (fun y hy => ?_) hx
      obtain ⟨row, hrow, hy⟩ := List.mem_map.mp hy
      exact hnan _ List.mem_cons_self
        (hextreme.imp (congrArg Method.reduce) (congrArg Method.reduce)) column rfl row hrow y hy
    · exact hexact _ List.mem_cons_self (hsum.imp (congrArg Method.reduce) (congrArg Method.reduce))
  | @combine name left right x y op hleft hright =>
    cases h' with
    | combine _ hleft' hright' =>
      have hx := hbefore.get? left
      have hy := hbefore.get? right
      rw [hleft, hleft'] at hx
      rw [hright, hright'] at hy
      cases hx with
      | some hx =>
        cases hy with
        | some hy => exact op.rel_evalOption hx hy

theorem ComputesAll.agree {before before' after after' : Scope (Option α)} {entries : List Entry}
    (h : ComputesAll columns members before entries after)
    (h' : ComputesAll columns members' before' entries after')
    (hperm : members.Perm members') (hbefore : Scope.Paired (Option.Rel Agree) before before')
    (hnan : ComparesNumbers entries columns members) (hexact : AddsExactly α entries) :
    Scope.Paired (Option.Rel Agree) after after' := by
  induction h generalizing before' with
  | nil =>
    cases h'
    exact hbefore
  | @cons before after entry rest v hv hrest ih =>
    cases h' with
    | @cons _ _ _ _ v' hv' hrest' =>
      obtain ⟨hnan, hnanRest⟩ := List.forall_mem_cons.mp hnan
      obtain ⟨hexact, hexactRest⟩ := List.forall_mem_cons.mp hexact
      have hvalue : Option.Rel Agree v v' := hv.agree hv' hperm hbefore
        (List.forall_mem_singleton.mpr hnan) (List.forall_mem_singleton.mpr hexact)
      exact ih hrest' (List.rel_append hbefore (.cons ⟨rfl, hvalue⟩ .nil)) hnanRest hexactRest

/-- A class has one row but for the sign of zeros, whatever the order of its members. -/
theorem IsRowOf.agree {config : Aggregation} {c c' : AxisGroup α} {row row' : Row α}
    (h : IsRowOf config columns c row) (h' : IsRowOf config columns c' row')
    (hkey : c.key = c'.key) (hperm : c.members.Perm c'.members)
    (hnan : ComparesNumbers config.entries columns c.members)
    (hexact : AddsExactly α config.entries) : List.Forall₂ Cell.Agree row row' := by
  obtain ⟨values, hvalues, rfl⟩ := h
  obtain ⟨values', hvalues', rfl⟩ := h'
  have hpaired := hvalues.agree hvalues' hperm .empty hnan hexact
  rw [hkey]
  exact List.rel_append (List.forall₂_same.mpr fun c _ => .refl c)
    (List.rel_map (fun _ _ he => Cell.agree_ofOption he.2) hpaired)

/-! ## The whole table -/

variable {t t' : Table α}

theorem agreeUnordered_run {config : Aggregation} {u u' : Table α}
    (hcolumns : t.columns = t'.columns) (hrows : t.rows.Perm t'.rows)
    (hnan : ComparesNumbers config.entries t.columns t.rows)
    (hexact : AddsExactly α config.entries) (hu : config.run t = .ok u)
    (hu' : config.run t' = .ok u') : u.AgreeUnordered u' := by
  have hrowOf := forall₂_isRowOf hu
  have hrowOf' := forall₂_isRowOf hu'
  rw [← hcolumns] at hrowOf'
  refine ⟨(columns_of_run hu).2.trans (columns_of_run hu').2.symm, ?_⟩
  -- The rows of the second output, in the order of the classes of the first table.
  obtain ⟨rows, hregrouped, hperm⟩ :=
    List.perm_comp_forall₂ (classes_perm hcolumns hrows config.axis) hrowOf'
  refine ⟨rows, hperm.symm, ?_⟩
  refine forall₂_of_common hrowOf (List.forall₂_map_left_iff.mp hregrouped) ?_
  intro c hc row row' hrow hrow'
  refine hrow.agree hrow' rfl (members_regroup_perm hcolumns hrows hc) ?_ hexact
  exact fun entry he hextreme column hcolumn row hrow =>
    hnan entry he hextreme column hcolumn row (mem_rows_of_mem_classes hc hrow)

/-- An aggregation that is accepted with a table is accepted with its rows in any other order, and
puts out the same rows in some order. -/
theorem run_perm {config : Aggregation} (hcolumns : t.columns = t'.columns)
    (hrows : t.rows.Perm t'.rows) (hcheck : config.check (some t) = .ok ())
    (hnan : ComparesNumbers config.entries t.columns t.rows)
    (hexact : AddsExactly α config.entries) :
    config.check (some t') = .ok () ∧ ∃ u u', config.run t = .ok u ∧ config.run t' = .ok u' ∧
      u.AgreeUnordered u' := by
  have hcheck' : config.check (some t') = .ok () := by
    rw [← check_congr hcolumns (isNumericColumn_of_perm hcolumns hrows), hcheck]
  obtain ⟨u, hu⟩ := run_of_check hcheck
  obtain ⟨u', hu'⟩ := run_of_check hcheck'
  exact ⟨hcheck', u, u', hu, hu', agreeUnordered_run hcolumns hrows hnan hexact hu hu'⟩

/-- Counts and extremes of doubles, and a sum and a mean of exact numbers, with the rows read from
the last one to the first: then the zero that is met first has the other sign. -/
theorem run_perm_zones :
    let t : Table Float := ⟨["zone", "v"],
      [[.text "a", .number 0.0], [.text "a", .number (-0.0)], [.text "b", .number 2.5]]⟩
    let back : Table Float := ⟨t.columns, t.rows.reverse⟩
    let spread : Aggregation := ⟨["zone"],
      [⟨"entries", .single "v", .reduce .count⟩, ⟨"high", .single "v", .reduce .max⟩,
        ⟨"low", .single "v", .reduce .min⟩, ⟨"spread", .many ["high", "low"], .combine .subtract⟩]⟩
    let q : Table ℚ := ⟨["zone", "v"],
      [[.text "a", .number (1 / 10)], [.text "b", .empty], [.text "a", .number (2 / 10)]]⟩
    let backward : Table ℚ := ⟨q.columns, q.rows.reverse⟩
    let average : Aggregation := ⟨["zone"],
      [⟨"total", .single "v", .reduce .sum⟩, ⟨"average", .single "v", .reduce .mean⟩]⟩
    (spread.check (some back) = .ok () ∧
      ∃ u u', spread.run t = .ok u ∧ spread.run back = .ok u' ∧ u.AgreeUnordered u' ∧
        u.rows = [[.text "a", .number 2.0, .number 0.0, .number 0.0, .number 0.0],
          [.text "b", .number 1.0, .number 2.5, .number 2.5, .number 0.0]] ∧
        u'.rows = [[.text "b", .number 1.0, .number 2.5, .number 2.5, .number 0.0],
          [.text "a", .number 2.0, .number (-0.0), .number (-0.0), .number 0.0]]) ∧
    average.check (some backward) = .ok () ∧
      ∃ u u', average.run q = .ok u ∧ average.run backward = .ok u' ∧ u.AgreeUnordered u' ∧
        u.rows =
          [[.text "a", .number (3 / 10), .number (3 / 20)], [.text "b", .number 0, .empty]] := by
  intro t back spread q backward average
  have hcheck : spread.check (some t) = .ok () := by rfl
  have hcheckExact : average.check (some q) = .ok () := by rfl
  have hnan : ComparesNumbers spread.entries t.columns t.rows := by
    intro entry he _ column hcolumn row hrow x hx
    have hsubject : entry.subject = .single "v" ∨ entry.subject = .many ["high", "low"] := by
      simp only [spread, List.mem_cons, List.not_mem_nil, or_false] at he
      rcases he with rfl | rfl | rfl | rfl <;> simp
    rcases hsubject with hsubject | hsubject
    · cases hsubject.symm.trans hcolumn
      simp only [t, List.mem_cons, List.not_mem_nil, or_false] at hrow
      rcases hrow with rfl | rfl | rfl <;> cases hx <;> decide +kernel
    · cases hsubject.symm.trans hcolumn
  have hexact : AddsExactly Float spread.entries := by
    intro entry he hsum
    simp only [spread, List.mem_cons, List.not_mem_nil, or_false] at he
    rcases he with rfl | rfl | rfl | rfl <;> simp at hsum
  have hcolumns : t.columns = back.columns := rfl
  have hrows : t.rows.Perm back.rows := (List.reverse_perm _).symm
  obtain ⟨hcheck', u, u', hu, hu', hagree⟩ := run_perm hcolumns hrows hcheck hnan hexact
  have hcolumnsExact : q.columns = backward.columns := rfl
  have hrowsExact : q.rows.Perm backward.rows := (List.reverse_perm _).symm
  obtain ⟨hcheckExact', v, v', hv, hv', hagreeExact⟩ := run_perm hcolumnsExact hrowsExact
    hcheckExact (fun _ _ _ _ _ _ _ _ _ => rfl) (fun _ _ _ => Rational.exactAddition)
  -- The zones are computed symbol by symbol; only the rational sums need arithmetic.
  have hrational : average.run q = .ok ⟨["zone", "total", "average"],
      [[.text "a", .number ((0 : Nat) + 1 / 10 + 2 / 10),
          .number (((0 : Nat) + 1 / 10 + 2 / 10) / (2 : Nat))],
        [.text "b", .number (0 : Nat), .empty]]⟩ := rfl
  refine ⟨⟨hcheck', u, u', hu, hu', hagree, ?_, ?_⟩, hcheckExact', v, v', hv, hv', hagreeExact, ?_⟩
  · exact congrArg Table.rows (Except.ok.inj (hu.symm.trans rfl))
  · exact congrArg Table.rows (Except.ok.inj (hu'.symm.trans rfl))
  · rw [← Except.ok.inj (hrational.symm.trans hv)]
    norm_num

end Aggregation
end TableSteps
