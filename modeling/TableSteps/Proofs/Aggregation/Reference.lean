import TableSteps.Proofs.Aggregation.RollUp
import TableSteps.Proofs.ListPairs

/-! # What an aggregation is

An aggregation runs over columns: each entry computes one value for every group before the next
entry is looked at. Its reference goes by classes instead. The rows that have one key over the axis
columns are a class; the classes stand in the order of their first rows, and each makes one row of
the output, entry by entry, from its own rows and nothing else.

`Computes` says what one entry gives for one class. The proof reads the scope of columns at the
place of a class: what the entries before have given this class is there, under their names. -/

namespace TableSteps

open Keyed (Key)

variable {α : Type} [Quantity α]

namespace Aggregation

/-! ## Classes -/

/-- The key of a row over the axis columns. -/
def axisKey (t : Table α) (axis : List String) (row : Row α) : RowKey (Key α) :=
  RowKey.ofRow row (positions t axis)

/-- The classes of the rows that have one key, each where its first row stands. -/
def classes (t : Table α) (axis : List String) : List (AxisGroup α) :=
  (t.rows.map (axisKey t axis)).eraseDups.map fun k =>
    ⟨k, t.rows.filter fun row => axisKey t axis row = k⟩

theorem groups_eq_classes (t : Table α) (axis : List String) :
    groups t (positions t axis) = classes t axis :=
  Group.byKey_eq_map _ _

/-- Every row is in one class. -/
theorem flatMap_classes_perm (t : Table α) (axis : List String) :
    ((classes t axis).flatMap Group.members).Perm t.rows := by
  rw [← groups_eq_classes]
  exact Group.flatMap_byKey_perm _ _

theorem keys_classes (t : Table α) (axis : List String) :
    (classes t axis).map Group.key = (t.rows.map (axisKey t axis)).eraseDups := by
  rw [classes, List.map_map]
  exact List.map_id _

/-- Without axis columns all rows are one class; without rows there is none. -/
theorem classes_nil (t : Table α) :
    classes t [] = if t.rows = [] then [] else [⟨⟨[]⟩, t.rows⟩] := by
  have hkey : axisKey t [] = fun _ => ⟨[]⟩ := rfl
  obtain ⟨columns, rows⟩ := t
  cases rows with
  | nil => rfl
  | cons row rest => simp [classes, hkey, List.eraseDups_cons]

/-! ## One class -/

/-- What an entry gives for the rows of a class, once the entries before it have given their
values. -/
inductive Computes (columns : List String) (members : List (Row α)) (before : Scope (Option α)) :
    Entry → Option α → Prop
  | reduce {name column : String} (reduction : Reduction) (h : column ∈ columns) :
    Computes columns members before ⟨name, .single column, .reduce reduction⟩
      ((Tally.ofCells (members.map (cellAt · (columns.idxOf column)))).result reduction)
  | combine {name left right : String} {x y : Option α} (op : Operator)
    (hleft : before.get? left = some x) (hright : before.get? right = some y) :
    Computes columns members before ⟨name, .many [left, right], .combine op⟩ (op.evalOption x y)

/-- What all entries give for the rows of a class, in their order and under their names. -/
inductive ComputesAll (columns : List String) (members : List (Row α)) :
    Scope (Option α) → List Entry → Scope (Option α) → Prop
  | nil (before : Scope (Option α)) : ComputesAll columns members before [] before
  | cons {before after : Scope (Option α)} {entry : Entry} {rest : List Entry} {value : Option α}
    (h : Computes columns members before entry value)
    (hrest : ComputesAll columns members ⟨before.entries ++ [(entry.name, value)]⟩ rest after) :
    ComputesAll columns members before (entry :: rest) after

/-- The row of a class has the cells of its key and then the values of the entries. -/
def IsRowOf (config : Aggregation) (columns : List String) (c : AxisGroup α) (row : Row α) : Prop :=
  ∃ values, ComputesAll columns c.members .empty config.entries values ∧
    row = c.key.toCells ++ values.entries.map fun e => .ofOption e.2

/-! ## The scope at the place of a class -/

/-- What the scope has for the class at a place. -/
def scopeAt (scope : Scope (List (Option α))) (place : Nat) : Scope (Option α) :=
  ⟨scope.entries.map fun e => (e.1, e.2.getD place none)⟩

omit [Quantity α] in
theorem get?_scopeAt (scope : Scope (List (Option α))) (place : Nat) (name : String) :
    (scopeAt scope place).get? name = (scope.get? name).map (·.getD place none) := by
  obtain ⟨entries⟩ := scope
  unfold scopeAt Scope.get?
  induction entries with
  | nil => rfl
  | cons e rest ih =>
    rw [List.map_cons, List.lookup_cons, List.lookup_cons]
    cases name == e.1 with
    | true => rfl
    | false => exact ih

theorem getD_zipWith_evalOption (op : Operator) (xs ys : List (Option α)) (place : Nat) :
    (xs.zipWith op.evalOption ys).getD place none =
      op.evalOption (xs.getD place none) (ys.getD place none) := by
  simp only [List.getD_eq_getElem?_getD, List.getElem?_zipWith]
  cases xs[place]? <;> cases ys[place]? <;> simp

variable {t : Table α} {groups : List (AxisGroup α)} {c : AxisGroup α} {place : Nat}

/-- An entry gives every class what it gives the class alone. -/
theorem computes_of_entryValues {scope : Scope (List (Option α))} {i : Nat} {entry : Entry}
    {values : List (Option α)} (h : entryValues t groups scope i entry = .ok values)
    (hc : groups[place]? = some c) :
    Computes t.columns c.members (scopeAt scope place) entry (values.getD place none) := by
  obtain ⟨name, subject, method⟩ := entry
  obtain ⟨reduction, column, p, rfl, rfl, hp, rfl⟩ |
    ⟨op, left, right, xs, ys, rfl, rfl, hxs, hys, rfl⟩ := entryValues_eq_ok h
  · obtain rfl := idxOf_of_idxOf? hp
    rw [List.getD_eq_getElem?_getD, List.getElem?_map, hc]
    exact .reduce reduction (mem_of_idxOf? hp)
  · rw [getD_zipWith_evalOption]
    refine .combine op ?_ ?_
    · rw [get?_scopeAt, hxs, Option.map_some]
    · rw [get?_scopeAt, hys, Option.map_some]

/-- A run over columns gives every class what its entries give one after the other. -/
theorem computesAll_of_evaluate {entries : List Entry} (hc : groups[place]? = some c) :
    ∀ {i : Nat} {scope out : Scope (List (Option α))},
      evaluate t groups i scope entries = .ok out →
      ComputesAll t.columns c.members (scopeAt scope place) entries (scopeAt out place) := by
  induction entries with
  | nil =>
    intro i scope out h
    cases h
    exact .nil _
  | cons entry rest ih =>
    intro i scope out h
    obtain ⟨values, hvalues, -, h⟩ := evaluate_cons_eq_ok h
    refine .cons (computes_of_entryValues hvalues hc) ?_
    have hscope : scopeAt ⟨scope.entries ++ [(entry.name, values)]⟩ place =
        ⟨(scopeAt scope place).entries ++ [(entry.name, values.getD place none)]⟩ := by
      simp [scopeAt]
    rw [← hscope]
    exact ih h

/-! ## The whole table -/

/-- A run puts out one row for each class, in the order of the classes. -/
theorem forall₂_isRowOf {config : Aggregation} {u : Table α} (h : config.run t = .ok u) :
    List.Forall₂ (IsRowOf config t.columns) (classes t config.axis) u.rows := by
  obtain ⟨-, -, scope, hscope, rfl⟩ := run_eq_ok h
  rw [groups_eq_classes] at hscope ⊢
  have hrows : ∀ place ∈ (classes t config.axis).zipIdx,
      IsRowOf config t.columns place.1 (outputRow scope place.1 place.2) := by
    rintro ⟨c, place⟩ hplace
    refine ⟨scopeAt scope place, computesAll_of_evaluate ?_ hscope, ?_⟩
    · exact List.mem_zipIdx_iff_getElem?.mp hplace
    · simp [outputRow, scopeAt]
  simpa using forall₂_map_map hrows

theorem names_of_evaluate {entries : List Entry} :
    ∀ {i : Nat} {scope out : Scope (List (Option α))},
      evaluate t groups i scope entries = .ok out →
      out.names = scope.names ++ entries.map Entry.name := by
  induction entries with
  | nil =>
    intro i scope out h
    cases h
    simp
  | cons entry rest ih =>
    intro i scope out h
    obtain ⟨values, -, hdefine, h⟩ := evaluate_cons_eq_ok h
    rw [ih h, Scope.names_define hdefine, List.append_assoc, List.map_cons]
    rfl

/-- The columns that a run puts out. -/
theorem columns_of_run {config : Aggregation} {u : Table α} (h : config.run t = .ok u) :
    u.WellFormed ∧ u.columns = config.axis ++ config.entries.map Entry.name := by
  obtain ⟨-, hwell, scope, hscope, rfl⟩ := run_eq_ok h
  refine ⟨hwell, ?_⟩
  rw [names_of_evaluate hscope]
  rfl

/-- An aggregation that is accepted with a table puts out one row for each class of its rows, in
the order of their first rows: the cells of the key, and what the entries give for the rows of the
class. No row is in two classes, and none is in no class. -/
theorem run_eq_reference {config : Aggregation} (h : config.check (some t) = .ok ()) :
    (∃ u, config.run t = .ok u ∧ u.WellFormed ∧
      u.columns = config.axis ++ config.entries.map Entry.name ∧
      List.Forall₂ (IsRowOf config t.columns) (classes t config.axis) u.rows) ∧
    ((classes t config.axis).flatMap Group.members).Perm t.rows ∧
    ((classes t config.axis).map Group.key).Nodup ∧
    ((classes t config.axis).map Group.key).Pairwise (fun k k' =>
      (t.rows.map (axisKey t config.axis)).idxOf k <
        (t.rows.map (axisKey t config.axis)).idxOf k') ∧
    (config.axis = [] → classes t config.axis = if t.rows = [] then [] else [⟨⟨[]⟩, t.rows⟩]) := by
  obtain ⟨u, hu⟩ := run_of_check h
  obtain ⟨hwell, hcolumns⟩ := columns_of_run hu
  refine ⟨⟨u, hu, hwell, hcolumns, forall₂_isRowOf hu⟩, flatMap_classes_perm t _, ?_, ?_, ?_⟩
  · rw [keys_classes]
    exact nodup_eraseDups _
  · rw [keys_classes]
    exact pairwise_idxOf_eraseDups _
  · rintro haxis
    rw [haxis, classes_nil]

/-- Sales by region, with the share of the best one; the second region has none. -/
theorem run_eq_reference_regions :
    let t : Table Float :=
      ⟨["region", "sales"], [[.text "North", .number 10.0], [.text "South", .empty],
        [.text "North", .number 30.0]]⟩
    let config : Aggregation :=
      ⟨["region"], [⟨"total", .single "sales", .reduce .sum⟩,
        ⟨"best", .single "sales", .reduce .max⟩,
        ⟨"share", .many ["best", "total"], .combine .divide⟩]⟩
    config.check (some t) = .ok () ∧ ∃ u, config.run t = .ok u ∧
      u.columns = ["region", "total", "best", "share"] ∧
      List.Forall₂ (IsRowOf config t.columns)
        [⟨⟨[.text "North"]⟩, [[.text "North", .number 10.0], [.text "North", .number 30.0]]⟩,
          ⟨⟨[.text "South"]⟩, [[.text "South", .empty]]⟩] u.rows := by
  intro t config
  have hcheck : config.check (some t) = .ok () := by rfl
  obtain ⟨⟨u, hu, -, hcolumns, hrows⟩, -⟩ := run_eq_reference hcheck
  have hclasses : classes t config.axis =
      [⟨⟨[.text "North"]⟩, [[.text "North", .number 10.0], [.text "North", .number 30.0]]⟩,
        ⟨⟨[.text "South"]⟩, [[.text "South", .empty]]⟩] := by
    simp [classes, axisKey, positions, RowKey.ofRow, cellAt, Cell.key, t, config,
      List.eraseDups_cons]
  exact ⟨hcheck, u, hu, hcolumns, hclasses ▸ hrows⟩

end Aggregation
end TableSteps
