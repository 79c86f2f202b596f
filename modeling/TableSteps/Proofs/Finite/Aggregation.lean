import TableSteps.Proofs.Aggregation.Adequacy
import TableSteps.Proofs.Finite.Basic
import TableSteps.Proofs.Reduction.Parts

/-! # Where aggregations leave the finite numbers

A sum can overflow, and with it a mean; an operator between two results can. Nothing else an
aggregation puts out is anything but finite: keys, largest and smallest numbers are numbers of the
table, and a count is not above the number of rows. -/

namespace TableSteps

open Quantity

variable {α : Type} [WireQuantity α]

namespace Tally

variable {cells : List (Cell α)}

theorem isFinite_of_mem_numbersIn (h : ∀ c ∈ cells, c.IsFinite) {x : α}
    (hx : x ∈ numbersIn cells) : isFinite x = true := by
  obtain ⟨c, hc, hx⟩ := List.mem_filterMap.mp hx
  split at hx
  · cases hx
  · exact (h c hc).of_asNumber hx

/-- The reduction adds numbers up and leaves the finite ones, or counts past a word. -/
def Exceeds (cells : List (Cell α)) : Reduction → Prop
  | .sum => isFinite (ofCells cells).sum = false
  | .mean => ∃ x, (ofCells cells).result .mean = some x ∧ isFinite x = false
  | .count => 2 ^ 64 ≤ cells.length
  | .max | .min => False

theorem isFinite_result [FiniteLaws α] [LawfulQuantity α] {reduction : Reduction}
    (h : ∀ c ∈ cells, c.IsFinite) (hexceeds : ¬ Exceeds cells reduction) {x : α}
    (hx : (ofCells cells).result reduction = some x) : isFinite x = true := by
  have hnumbers : ∀ y ∈ numbersIn cells, isFinite y = true := fun y hy =>
    isFinite_of_mem_numbersIn h hy
  have hnan : ∀ y ∈ numbersIn cells, isNaN y = false := fun y hy =>
    LawfulQuantity.isNaN_of_isFinite (hnumbers y hy)
  cases reduction with
  | sum =>
    cases hx
    exact eq_true_of_ne_false hexceeds
  | mean =>
    exact eq_true_of_ne_false fun hfinite => hexceeds ⟨x, hx, hfinite⟩
  | count =>
    cases hx
    refine FiniteLaws.isFinite_ofNat (Nat.lt_of_le_of_lt ?_ (Nat.not_le.mp hexceeds))
    rw [cells_ofCells]
    exact List.countP_le_length
  | max =>
    have hbest := isBest_max hnan
    change (ofCells cells).max = some x at hx
    rw [hx] at hbest
    exact hnumbers x hbest.mem
  | min =>
    have hbest := isBest_min hnan
    change (ofCells cells).min = some x at hx
    rw [hx] at hbest
    exact hnumbers x hbest.mem

end Tally

namespace Aggregation

variable {t : Table α} {groups : List (AxisGroup α)}

/-- The values of a scope are finite. -/
def ScopeFinite (scope : Scope (List (Option α))) : Prop :=
  ∀ name values, (name, values) ∈ scope.entries → ∀ x, some x ∈ values → isFinite x = true

/-- An entry computes a number that is not finite, from the cells of a group or from finite results
before it. -/
def EntryExceeds (t : Table α) (groups : List (AxisGroup α)) (scope : Scope (List (Option α)))
    (entry : Entry) : Prop :=
  match entry.method with
  | .reduce reduction =>
    ∃ column p g, entry.subject.single? = some column ∧ t.columnIndex? column = some p ∧
      g ∈ groups ∧ Tally.Exceeds (subjectCells g p) reduction
  | .combine op =>
    ∃ left right, entry.subject.pair? = some (left, right) ∧
      ∃ (xs ys : List (Option α)) (k : Nat) (x y : α),
        scope.get? left = some xs ∧ scope.get? right = some ys ∧ xs[k]? = some (some x) ∧
          ys[k]? = some (some y) ∧ op.Overflows x y

/-- Some entry computes a number that is not finite. -/
def Exceeds (config : Aggregation) (t : Table α) : Prop :=
  ∃ positions, axisPositions t 0 config.axis = .ok positions ∧
    ∃ n entry scope, config.entries[n]? = some entry ∧
      evaluate t (Aggregation.groups t positions) 0 .empty (config.entries.take n) = .ok scope ∧
      EntryExceeds t (Aggregation.groups t positions) scope entry

variable [FiniteLaws α] [LawfulQuantity α]

theorem isFinite_entryValues {scope : Scope (List (Option α))} {i : Nat} {entry : Entry}
    {values : List (Option α)} (hcells : ∀ g ∈ groups, ∀ p, ∀ c ∈ subjectCells g p, c.IsFinite)
    (hscope : ScopeFinite scope) (hexceeds : ¬ EntryExceeds t groups scope entry)
    (h : entryValues t groups scope i entry = .ok values) :
    ∀ x, some x ∈ values → isFinite x = true := by
  intro x hx
  obtain ⟨reduction, column, p, hmethod, hsubject, hp, rfl⟩ |
    ⟨op, left, right, xs, ys, hmethod, hsubject, hleft, hright, rfl⟩ := entryValues_eq_ok h
  · rw [EntryExceeds, hmethod, hsubject] at hexceeds
    obtain ⟨g, hg, hx⟩ := List.mem_map.mp hx
    exact Tally.isFinite_result (hcells g hg p)
      (fun hgroup => hexceeds ⟨column, p, g, rfl, hp, hg, hgroup⟩) hx
  · rw [EntryExceeds, hmethod, hsubject] at hexceeds
    obtain ⟨k, hk⟩ := List.mem_iff_getElem?.mp hx
    obtain ⟨x?, y?, hx?, hy?, hz⟩ := List.getElem?_zipWith_eq_some.mp hk
    have hxs : ∀ v, x? = some v → isFinite v = true := fun v hv =>
      hscope left xs (Dictionary.mem_of_lookup hleft) v (hv ▸ List.mem_of_getElem? hx?)
    have hys : ∀ v, y? = some v → isFinite v = true := fun v hv =>
      hscope right ys (Dictionary.mem_of_lookup hright) v (hv ▸ List.mem_of_getElem? hy?)
    refine Operator.isFinite_evalOption hxs hys (fun v w hv hw hover => hexceeds ?_) hz
    subst hv hw
    exact ⟨left, right, rfl, xs, ys, k, v, w, hleft, hright, hx?, hy?, hover⟩

/-- A scope keeps finite values until an entry exceeds. -/
theorem scopeFinite_evaluate {entries : List Entry}
    (hcells : ∀ g ∈ groups, ∀ p, ∀ c ∈ subjectCells g p, c.IsFinite) :
    ∀ {i : Nat} {scope out : Scope (List (Option α))}, ScopeFinite scope →
      (∀ n entry before, entries[n]? = some entry →
        evaluate t groups i scope (entries.take n) = .ok before →
        ¬ EntryExceeds t groups before entry) →
      evaluate t groups i scope entries = .ok out → ScopeFinite out := by
  induction entries with
  | nil =>
    intro i scope out hscope _ h
    cases h
    exact hscope
  | cons entry rest ih =>
    intro i scope out hscope hexceeds h
    obtain ⟨values, hvalues, hdefine, h⟩ := evaluate_cons_eq_ok h
    have hfinite := isFinite_entryValues hcells hscope (hexceeds 0 entry scope rfl rfl) hvalues
    refine ih (fun name vs hvs => ?_) (fun n other before hother hbefore => ?_) h
    · rcases List.mem_append.mp hvs with hvs | hvs
      · exact hscope name vs hvs
      · cases List.mem_singleton.mp hvs
        exact hfinite
    · refine hexceeds (n + 1) other before hother ?_
      rw [List.take_succ_cons, evaluate, hvalues, ok_bind, hdefine, ok_mapError, ok_bind]
      exact hbefore

/-- An aggregation of finite numbers puts out finite numbers unless an entry exceeds. -/
theorem isFinite_run {config : Aggregation} {u : Table α} (ht : t.IsFinite)
    (hexceeds : ¬ config.Exceeds t) (h : config.run t = .ok u) : u.IsFinite := by
  obtain ⟨positions, hpositions, h⟩ := bind_eq_ok_iff.mp h
  obtain ⟨scope, hscope, h⟩ := bind_eq_ok_iff.mp h
  obtain ⟨rfl, -⟩ := Table.ofRows_eq_ok_iff.mp (orTableFault_eq_ok_iff.mp h)
  have hcells : ∀ g ∈ Aggregation.groups t positions, ∀ p, ∀ c ∈ subjectCells g p, c.IsFinite := by
    intro g hg p c hc
    obtain ⟨row, hrow, rfl⟩ := List.mem_map.mp hc
    rw [Group.members_byKey hg] at hrow
    exact ht.cellAt (List.mem_filter.mp hrow).1 p
  have hfinite : ScopeFinite scope := by
    refine scopeFinite_evaluate hcells (by simp [ScopeFinite, Scope.empty]) ?_ hscope
    intro n entry before hentry hbefore hover
    exact hexceeds ⟨positions, hpositions, n, entry, before, hentry, hbefore, hover⟩
  intro row hrow c hc
  obtain ⟨⟨g, k⟩, hg, rfl⟩ := List.mem_map.mp hrow
  rcases List.mem_append.mp hc with hc | hc
  · obtain ⟨row, hrow, hkey⟩ := exists_ofRow_of_mem_groups (List.fst_mem_of_mem_zipIdx hg)
    rw [hkey] at hc
    exact RowKey.isFinite_toCells (fun p => ht.cellAt hrow p) c hc
  · obtain ⟨⟨name, values⟩, hentry, rfl⟩ := List.mem_map.mp hc
    refine Cell.isFinite_ofOption_iff.mpr fun x hx => hfinite name values hentry x ?_
    rw [List.getD_eq_getElem?_getD] at hx
    cases hvalue : values[k]? with
    | none =>
      rw [hvalue] at hx
      cases hx
    | some value =>
      rw [hvalue] at hx
      exact hx ▸ List.mem_of_getElem? hvalue

end Aggregation
end TableSteps
