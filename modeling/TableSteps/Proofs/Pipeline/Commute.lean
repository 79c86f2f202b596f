import TableSteps.Binary64.Quantity
import TableSteps.Proofs.Filter.SideBySide
import TableSteps.Proofs.Step.Execution
import TableSteps.Proofs.Transform.Adequacy
import TableSteps.Proofs.Transform.RowByRow

/-! # Independent steps commute

A transform works row by row, and a filter that reads no column which the transform writes decides
the same about a row before and after. So the two steps can change places: both orders fail, or both
end with the same table. -/

namespace TableSteps

variable {α : Type} [WireQuantity α] {t : Table α}

/-- The filter reads columns that are there, and none that the transform writes. -/
def Filter.Independent (filter : Filter α) (config : Transform α) (t : Table α) : Prop :=
  ∀ name ∈ filter.reads, name ∈ t.columns ∧ name ∉ config.targets

namespace Transform

variable {config : Transform α} {filter : Filter α} {u : Table α}

/-- A row of a table, and the same row as the transform leaves it. -/
def Rewritten (config : Transform α) (t : Table α) (row row' : Row α) : Prop :=
  row ∈ t.rows ∧ row' = rewrite t.columns config.operations row

theorem forall₂_rewritten (hu : config.run t = .ok u) :
    List.Forall₂ (config.Rewritten t) t.rows u.rows := by
  rw [rows_of_run hu, List.forall₂_map_right_iff, List.forall₂_same]
  exact fun row hrow => ⟨hrow, rfl⟩

theorem eq_map_of_forall₂ {rows rows' : List (Row α)}
    (h : List.Forall₂ (config.Rewritten t) rows rows') :
    rows' = rows.map (rewrite t.columns config.operations) := by
  rw [← List.forall₂_eq_eq_eq, List.forall₂_map_right_iff]
  exact h.flip.imp fun _ _ hrow => hrow.2

theorem sameReading_of_independent (ht : t.WellFormed) (hu : config.run t = .ok u)
    (h : filter.Independent config t) :
    ∀ name ∈ filter.reads, Filter.SameReading Eq (config.Rewritten t) t u name := by
  intro name hname
  obtain ⟨hmem, htarget⟩ := h name hname
  obtain ⟨p, hp⟩ := Table.exists_columnIndex? hmem
  unfold Filter.SameReading
  rw [columnIndex?_of_run hu htarget, hp]
  refine .some fun row row' hrow => ?_
  rw [hrow.2, cellAt_of_run ht hrow.1 hp htarget]

theorem filter_check_iff (ht : t.WellFormed) (hu : config.run t = .ok u)
    (h : filter.Independent config t) :
    filter.check (some t) .allowed = .ok () ↔ filter.check (some u) .allowed = .ok () :=
  Filter.check_iff Filter.indistinct_eq (sameReading_of_independent ht hu h) (forall₂_rewritten hu)

/-- Filtered before or after the transform, the table loses the same rows. -/
theorem alike_filter (references : References α) (ht : t.WellFormed) (hu : config.run t = .ok u)
    (h : filter.Independent config t) :
    Alike (fun v w => v = t.withRows v.rows ∧ config.run v = .ok w) (filter.run t references)
      (filter.run u references) := by
  have hreads := sameReading_of_independent ht hu h
  have hranking : ∀ f, filter.numeric = some f → Filter.SameRanking (config.Rewritten t) t u f := by
    intro f hf
    have hcolumn := hreads f.column (by simp [Filter.reads, hf])
    cases f with
    | top column count ascending =>
      intro p p' hp hp' x x' y y' hx hy
      rw [Filter.numberAt, Filter.numberAt, Filter.numberAt, Filter.numberAt,
        hcolumn.related hp hp' hx, hcolumn.related hp hp' hy]
    | range column min max | band column low high => trivial
  refine (Filter.alike_run Filter.indistinct_eq references hreads hranking
    (forall₂_rewritten hu)).mono fun v w hvw => ?_
  obtain ⟨hv, hw, hrows⟩ := hvw
  have hsame : v = t.withRows v.rows := by
    rw [Table.withRows, ← hv]
  refine ⟨hsame, ?_⟩
  rw [hsame, run_withRows, hu, ok_map, ← eq_map_of_forall₂ hrows, Table.withRows, ← hw]

end Transform

namespace Pipeline

/-- A transform works on a choice of rows as on all rows. A transform and a filter that reads
columns which are there and are not written give the same table in either order, or fail in both. -/
theorem transform_filter_commute (t : Table α) (references : References α) :
    (∀ (config : Transform α) (positions : List Nat),
      config.run (t.selectRows positions) = (config.run t).map (·.selectRows positions)) ∧
    (t.WellFormed → ∀ rawTransform rawFilter : Json,
      (∀ (config : Transform α) (filter : Filter α), Transform.decode rawTransform = .ok config →
        Filter.decode rawFilter = .ok filter → filter.Independent config t) →
      Alike (fun first second => first.table = second.table)
        (run ⟨[⟨.transform, rawTransform⟩, ⟨.filter, rawFilter⟩]⟩ t references).outcome
        (run ⟨[⟨.filter, rawFilter⟩, ⟨.transform, rawTransform⟩]⟩ t references).outcome) := by
  refine ⟨fun config => Transform.run_selectRows, fun ht rawTransform rawFilter h => ?_⟩
  refine .of_eq_ok (fun output houtput => ?_) fun output houtput => ?_
  · obtain ⟨first, hfirst, second, hsecond, rfl⟩ := run_pair_eq_ok_iff.mp houtput
    obtain ⟨config, hconfig, hcheck, u, hu, rfl⟩ := Transform.execute_eq_ok_iff.mp hfirst
    obtain ⟨filter, hfilter, hkeeps, w, hw, rfl⟩ := Filter.execute_eq_ok_iff.mp hsecond
    have hapart := h config filter hconfig hfilter
    have hboth := Transform.alike_filter references ht hu hapart
    change filter.run u references = .ok w at hw
    rw [hw] at hboth
    obtain ⟨v, hv, hrows, hvw⟩ := hboth.exists_left
    have hkeeps := (Transform.filter_check_iff ht hu hapart).mpr hkeeps
    refine ⟨⟨w, [.ofTable v, .ofTable w]⟩,
      run_pair_eq_ok_iff.mpr ⟨.ofTable v, ?_, .ofTable w, ?_, rfl⟩, rfl⟩
    · exact Filter.execute_eq_ok_iff.mpr ⟨filter, hfilter, hkeeps, v, hv, rfl⟩
    · refine Transform.execute_eq_ok_iff.mpr ⟨config, hconfig, ?_, w, hvw, rfl⟩
      change config.check (some v) = .ok ()
      rw [hrows]
      exact hcheck
  · obtain ⟨first, hfirst, second, hsecond, rfl⟩ := run_pair_eq_ok_iff.mp houtput
    obtain ⟨filter, hfilter, hkeeps, v, hv, rfl⟩ := Filter.execute_eq_ok_iff.mp hfirst
    obtain ⟨config, hconfig, hcheck, -⟩ := Transform.execute_eq_ok_iff.mp hsecond
    obtain ⟨rows, rfl, -⟩ := Filter.run_eq_ok hv
    -- the check of a transform reads the columns alone
    change config.check (some t) = .ok () at hcheck
    obtain ⟨u, hu⟩ := Transform.run_of_check hcheck
    have hapart := h config filter hconfig hfilter
    have hboth := Transform.alike_filter references ht hu hapart
    rw [hv] at hboth
    obtain ⟨w, hw, -⟩ := hboth.exists_right
    have hkeeps := (Transform.filter_check_iff ht hu hapart).mp hkeeps
    refine ⟨_, run_pair_eq_ok_iff.mpr ⟨.ofTable u, ?_, .ofTable w, ?_, rfl⟩⟩
    · exact Transform.execute_eq_ok_iff.mpr ⟨config, hconfig, hcheck, u, hu, rfl⟩
    · exact Filter.execute_eq_ok_iff.mpr ⟨filter, hfilter, hkeeps, w, hw, rfl⟩

/-- Zones are looked up for all rows or for the rows that are kept. -/
theorem transform_filter_commute_zones :
    let zones : Json := .obj [("operations", .arr [.obj
      [ ("operation_type", .str "add_axis"), ("target_name", .str "zone"),
        ("calculation", .obj
          [ ("type", .str "mapping"), ("source", .str "region"),
            ("mapping", .obj [("North", .str "N"), ("South", .str "S")]) ]) ]])]
    let north : Json := .obj [("category_filter", .obj [("region", .arr [.str "North"])])]
    let t : Table Float := ⟨["region"], [[.text "South"], [.text "North"]]⟩
    ∃ first second,
      (run ⟨[⟨.transform, zones⟩, ⟨.filter, north⟩]⟩ t .empty).outcome = .ok first ∧
      (run ⟨[⟨.filter, north⟩, ⟨.transform, zones⟩]⟩ t .empty).outcome = .ok second ∧
      first.table = second.table ∧
      first.table = ⟨["region", "zone"], [[.text "North", .text "N"]]⟩ := by
  intro zones north t
  have ht : t.WellFormed := ⟨by decide, by decide⟩
  have hindependent : ∀ (config : Transform Float) (filter : Filter Float),
      Transform.decode zones = .ok config → Filter.decode north = .ok filter →
      filter.Independent config t := by
    intro config filter hconfig hfilter
    cases hconfig
    cases hfilter
    intro name hname
    obtain rfl : name = "region" := List.mem_singleton.mp hname
    exact ⟨by decide, by decide⟩
  have hboth := (transform_filter_commute t .empty).2 ht zones north hindependent
  have hfirst : (run ⟨[⟨.transform, zones⟩, ⟨.filter, north⟩]⟩ t .empty).outcome =
      .ok ⟨⟨["region", "zone"], [[.text "North", .text "N"]]⟩,
        [ .ofTable ⟨["region", "zone"], [[.text "South", .text "S"], [.text "North", .text "N"]]⟩,
          .ofTable ⟨["region", "zone"], [[.text "North", .text "N"]]⟩ ]⟩ := rfl
  rw [hfirst] at hboth
  obtain ⟨second, hsecond, hsame⟩ := hboth.exists_right
  exact ⟨_, second, hfirst, hsecond, hsame, rfl⟩

end Pipeline
end TableSteps
