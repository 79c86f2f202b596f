import TableSteps.Aggregation.Check
import TableSteps.Proofs.Aggregation.Adequacy
import TableSteps.Proofs.SignedZero.Filter
import TableSteps.Proofs.Step.ScopePairs

/-! # Aggregations and signed zeros

Rows are grouped by keys, which fold the zeros into one, and the tally of a group adds, counts and
compares. So an aggregation never tells zeros of either sign apart. -/

namespace TableSteps

open Quantity (Agree)
open SignedZeroLaws

variable {α : Type} [WireQuantity α] {t u : Table α}

/-! ## Tallies -/

/-- The same counts, with numbers that agree. -/
structure Tally.Agree (a b : Tally α) : Prop where
  sum : Quantity.Agree a.sum b.sum
  cells : a.cells = b.cells
  numbers : a.numbers = b.numbers
  min : Option.Rel Quantity.Agree a.min b.min
  max : Option.Rel Quantity.Agree a.max b.max

section Tallies

variable [SignedZeroLaws α]

namespace Tally

variable {a b : Tally α} {x y : α}

omit [SignedZeroLaws α] in
theorem agree_improve {better : α → α → α}
    (hbetter : ∀ {x x' y y'}, Quantity.Agree x x' → Quantity.Agree y y' →
      Quantity.Agree (better x y) (better x' y')) {sofar sofar' : Option α}
    (hsofar : Option.Rel Quantity.Agree sofar sofar') (h : Quantity.Agree x y) :
    Quantity.Agree (improve better sofar x) (improve better sofar' y) := by
  cases hsofar with
  | none => exact h
  | some hfar => exact hbetter hfar h

theorem Agree.addNumber (hab : a.Agree b) (h : Quantity.Agree x y) :
    (a.addNumber x).Agree (b.addNumber y) where
  sum := agree_add hab.sum h
  cells := congrArg (· + 1) hab.cells
  numbers := congrArg (· + 1) hab.numbers
  min := .some (agree_improve Quantity.agree_least hab.min h)
  max := .some (agree_improve Quantity.agree_greatest hab.max h)

theorem Agree.addCell (hab : a.Agree b) {c d : Cell α} (h : c.Agree d) :
    (a.addCell c).Agree (b.addCell d) := by
  have hnumber := h.asNumber
  unfold Tally.addCell
  rw [h.isMissing_eq]
  split
  · exact hab
  · generalize c.asNumber = x?, d.asNumber = y? at hnumber
    cases hnumber with
    | none => exact { hab with cells := congrArg (· + 1) hab.cells }
    | some hxy => exact hab.addNumber hxy

theorem agree_ofCells {cells cells' : List (Cell α)}
    (h : List.Forall₂ Cell.Agree cells cells') : (ofCells cells).Agree (ofCells cells') := by
  have hempty : (empty : Tally α).Agree empty := ⟨.refl _, rfl, rfl, .none, .none⟩
  exact List.rel_foldl (fun _ _ hab _ _ hcell => hab.addCell hcell) hempty h

theorem Agree.result (hab : a.Agree b) (reduction : Reduction) :
    Option.Rel Quantity.Agree (a.result reduction) (b.result reduction) := by
  cases reduction with
  | sum => exact .some hab.sum
  | count =>
    rw [Tally.result, Tally.result, hab.cells]
    exact .some (.refl _)
  | mean =>
    rw [Tally.result, Tally.result, hab.numbers]
    split
    · exact .none
    · exact .some (agree_div hab.sum)
  | max => exact hab.max
  | min => exact hab.min

end Tally

end Tallies

/-! ## Groups -/

namespace Group

variable {κ ρ : Type} [DecidableEq κ] {S : ρ → ρ → Prop}

/-- The same key, with members that are related one by one. -/
def Paired (S : ρ → ρ → Prop) (g g' : Group κ ρ) : Prop :=
  g.key = g'.key ∧ List.Forall₂ S g.members g'.members

theorem forall₂_place {key : κ} {m m' : ρ} (hm : S m m') {groups groups' : List (Group κ ρ)}
    (h : List.Forall₂ (Paired S) groups groups') :
    List.Forall₂ (Paired S) (place key m groups) (place key m' groups') := by
  induction h with
  | nil => exact .cons ⟨rfl, .cons hm .nil⟩ .nil
  | cons hfirst hrest ih =>
    unfold place
    rw [hfirst.1]
    split
    · exact .cons ⟨rfl, List.rel_append hfirst.2 (.cons hm .nil)⟩ hrest
    · exact .cons hfirst ih

/-- Members that have the same keys fall into the same groups. -/
theorem forall₂_byKey {key : ρ → κ} (hkey : ∀ m m', S m m' → key m = key m')
    {members members' : List ρ} (h : List.Forall₂ S members members') :
    List.Forall₂ (Paired S) (byKey key members) (byKey key members') := by
  refine List.rel_foldl (fun groups groups' hgroups m m' hm => ?_) .nil h
  rw [hkey m m' hm]
  exact forall₂_place hm hgroups

end Group

/-! ## Aggregations -/

theorem Table.Agree.position_eq (h : t.Agree u) (place : Place) (name : String) :
    t.position place name = u.position place name := by
  rw [Table.position, Table.position, h.columnIndex?_eq, h.columns]

namespace Aggregation

variable [SignedZeroLaws α]

omit [SignedZeroLaws α] in
/-- Rows of equal widths make a table, or none of them does. -/
theorem agree_ofRows {columns : List String} {rows rows' : List (Row α)}
    (h : List.Forall₂ (List.Forall₂ Cell.Agree) rows rows') :
    Alike Table.Agree (orTableFault (Table.ofRows columns rows))
      (orTableFault (Table.ofRows columns rows')) := by
  have hlengths : rows.map List.length = rows'.map List.length :=
    map_eq_map_iff_forall₂.mpr (h.imp fun _ _ hrow => hrow.length_eq)
  have hwidths : (∀ row ∈ rows, row.length = columns.length) ↔
      ∀ row ∈ rows', row.length = columns.length := by
    rw [← List.forall_mem_map (P := (· = columns.length)), hlengths, List.forall_mem_map]
  refine .of_eq_ok (fun v hv => ?_) fun w hw => ?_
  · obtain ⟨rfl, hnodup, hwidth⟩ := Table.ofRows_eq_ok_iff.mp (orTableFault_eq_ok_iff.mp hv)
    refine ⟨⟨columns, rows'⟩, orTableFault_eq_ok_iff.mpr ?_, ⟨rfl, h⟩⟩
    exact Table.ofRows_eq_ok_iff.mpr ⟨rfl, hnodup, hwidths.mp hwidth⟩
  · obtain ⟨rfl, hnodup, hwidth⟩ := Table.ofRows_eq_ok_iff.mp (orTableFault_eq_ok_iff.mp hw)
    refine ⟨⟨columns, rows⟩, orTableFault_eq_ok_iff.mpr ?_⟩
    exact Table.ofRows_eq_ok_iff.mpr ⟨rfl, hnodup, hwidths.mpr hwidth⟩

/-- Results of a group one by one. -/
abbrev ResultsAgree (values values' : List (Option α)) : Prop :=
  List.Forall₂ (Option.Rel Agree) values values'

omit [SignedZeroLaws α] in
theorem axisPositions_eq (h : t.Agree u) (i : Nat) (names : List String) :
    axisPositions t i names = axisPositions u i names := by
  induction names generalizing i with
  | nil => rfl
  | cons name rest ih => rw [axisPositions, axisPositions, h.position_eq, ih]

theorem forall₂_groups (h : t.Agree u) (positions : List Nat) :
    List.Forall₂ (Group.Paired (List.Forall₂ Cell.Agree)) (groups t positions)
      (groups u positions) := by
  refine Group.forall₂_byKey (fun row row' hrow => ?_) h.rows
  exact congrArg RowKey.mk (List.map_congr_left fun p _ => (Cell.agree_cellAt hrow p).key_eq)

variable {gs gs' : List (AxisGroup α)} {scope scope' : Scope (List (Option α))}

theorem alike_entryValues (h : t.Agree u)
    (hgroups : List.Forall₂ (Group.Paired (List.Forall₂ Cell.Agree)) gs gs')
    (hscope : Scope.Paired ResultsAgree scope scope') (i : Nat) (entry : Entry) :
    Alike ResultsAgree (entryValues t gs scope i entry) (entryValues u gs' scope' i entry) := by
  unfold entryValues
  cases entry.method with
  | reduce reduction =>
    cases entry.subject.single? with
    | none => exact .error _ _
    | some column =>
      dsimp only
      rw [h.position_eq]
      cases u.position (subjectPlace i) column with
      | error e => exact .error e e
      | ok p =>
        refine .ok (List.rel_map (fun g g' hg => ?_) hgroups)
        have hcells := List.rel_map (fun _ _ hrow => Cell.agree_cellAt hrow p) hg.2
        exact (Tally.agree_ofCells hcells).result reduction
  | combine op =>
    cases entry.subject.pair? with
    | none => exact .error _ _
    | some names =>
      refine (hscope.pair (subjectPlace i) names.1 names.2).bind fun v v' hv => .ok ?_
      exact forall₂_zipWith (fun _ _ _ _ => op.rel_evalOption) hv.1 hv.2

theorem alike_evaluate (h : t.Agree u)
    (hgroups : List.Forall₂ (Group.Paired (List.Forall₂ Cell.Agree)) gs gs')
    {entries : List Entry} :
    ∀ {i : Nat} {scope scope' : Scope (List (Option α))},
      Scope.Paired ResultsAgree scope scope' →
      Alike (Scope.Paired ResultsAgree) (evaluate t gs i scope entries)
        (evaluate u gs' i scope' entries) := by
  induction entries with
  | nil => exact fun hscope => .ok hscope
  | cons entry rest ih =>
    intro i scope scope' hscope
    refine (alike_entryValues h hgroups hscope i entry).bind fun values values' hvalues => ?_
    exact (hscope.define (namePlace i) entry.name hvalues).bind fun _ _ => ih

omit [SignedZeroLaws α] in
theorem agree_outputRow {g g' : AxisGroup α} (hg : Group.Paired (List.Forall₂ Cell.Agree) g g')
    (hscope : Scope.Paired ResultsAgree scope scope') (n : Nat) :
    List.Forall₂ Cell.Agree (outputRow scope g n) (outputRow scope' g' n) := by
  unfold outputRow
  rw [hg.1]
  refine List.rel_append (List.forall₂_same.mpr fun c _ => .refl c) (List.rel_map ?_ hscope)
  rintro ⟨_, values⟩ ⟨_, values'⟩ ⟨-, hvalues⟩
  exact Cell.agree_ofOption (rel_getD hvalues .none n)

/-- An aggregation takes tables that agree to tables that agree. -/
theorem agree_run {config : Aggregation} (h : t.Agree u) :
    Alike Table.Agree (config.run t) (config.run u) := by
  unfold run
  rw [axisPositions_eq h]
  cases axisPositions u 0 config.axis with
  | error e => exact .error e e
  | ok positions =>
    have hgroups := forall₂_groups h positions
    refine (alike_evaluate h hgroups Scope.Paired.empty).bind fun scope scope' hscope => ?_
    rw [hscope.names_eq]
    refine agree_ofRows (List.rel_map (fun a b hab => ?_) (forall₂_zipIdx hgroups 0))
    obtain ⟨g, n⟩ := a
    obtain ⟨g', _⟩ := b
    obtain ⟨hg, rfl⟩ := hab
    exact agree_outputRow hg hscope n

end Aggregation
end TableSteps
