import TableSteps.Proofs.Filter.Ranking
import TableSteps.Proofs.Filter.Sequence

/-! # A filter run twice

A filter leaves alone what it has left. The categories and the join ask each row on its own, and so
does a range; a ranking finds the rows that are left in their order, and no more of them than it
asks for. What the check has found in the table, it finds in the rows that are left, also when there
are none.

A band of percentiles is not of this kind: it is cut by the numbers of the rows that are left. -/

namespace TableSteps
namespace Filter

variable {α : Type} [WireQuantity α] {config : Filter α} {t u : Table α}
  {rows kept others : List (Row α)} {references : References α}

/-! ## Part by part -/

/-- The categories leave rows alone that they have left. -/
theorem afterCategories_withRows (h : ∀ row ∈ others, row ∈ config.afterCategories t) :
    config.afterCategories (t.withRows others) = others := by
  obtain ⟨p, hp, hkept⟩ := keeps_afterCategories config t
  obtain ⟨q, hq, hothers⟩ := keeps_afterCategories config (t.withRows others)
  have hall : ∀ row ∈ others, q row = true := by
    intro row hrow
    have hmem := h row hrow
    rw [hkept] at hmem
    exact (hq row).mpr ((hp row).mp (List.mem_filter.mp hmem).2)
  rw [hothers]
  exact List.filter_eq_self.mpr hall

/-- A condition on numbers that is not a band leaves rows alone that it has left, in their order. -/
theorem byNumber_again [TotalOrderLaws α] {filter : NumberFilter α}
    (hfilter : ∀ column low high, filter ≠ .band column low high)
    (h : byNumber t filter rows = .ok kept) (hothers : others.Sublist kept) :
    byNumber t filter others = .ok others := by
  cases filter with
  | range column min max =>
    obtain ⟨hcolumn, rfl⟩ := byNumber_range_eq_ok_iff.mp h
    refine byNumber_range_eq_ok_iff.mpr ⟨hcolumn, (List.filter_eq_self.mpr fun row hrow => ?_).symm⟩
    exact (List.mem_filter.mp (hothers.mem hrow)).2
  | top column count ascending =>
    obtain ⟨hcolumn, hcount, rfl⟩ := byNumber_top_eq_ok_iff.mp h
    refine byNumber_top_eq_ok_iff.mpr ⟨hcolumn, hcount, ?_⟩
    have hlength : others.length ≤ count.toNat :=
      hothers.length_le.trans (List.length_take_le ..)
    rw [topRows, ranked_of_sublist (hothers.trans (List.take_sublist ..)),
      List.take_of_length_le hlength]
  | band column low high => exact absurd rfl (hfilter column low high)

theorem afterNumeric_again [TotalOrderLaws α]
    (hnumeric : ∀ column low high, config.numeric ≠ some (.band column low high))
    (h : config.afterNumeric t rows = .ok kept) (hothers : others.Sublist kept) :
    config.afterNumeric t others = .ok others := by
  unfold afterNumeric at h ⊢
  cases hfilter : config.numeric with
  | none => rfl
  | some filter =>
    rw [hfilter] at h
    refine byNumber_again (fun column low high heq => ?_) h hothers
    exact hnumeric column low high (hfilter.trans (congrArg some heq))

/-! ## The whole filter -/

theorem run_again [TotalOrderLaws α]
    (hnumeric : ∀ column low high, config.numeric ≠ some (.band column low high))
    (h : config.run t references = .ok u) : config.run u references = .ok u := by
  obtain ⟨rows, kept, hrows, hkept, rfl⟩ := run_eq_ok_iff.mp h
  obtain ⟨p, -, hjoin⟩ := exists_afterJoin_eq_filter hkept
  obtain rfl : rows.filter p = kept := Except.ok.inj ((hjoin rows).symm.trans hkept)
  refine run_eq_ok_iff.mpr ⟨rows.filter p, rows.filter p, ?_, ?_, rfl⟩
  · rw [afterCategories_withRows fun row hrow =>
      mem_of_afterNumeric hrows (List.mem_filter.mp hrow).1]
    rw [afterNumeric_withRows]
    exact afterNumeric_again hnumeric hrows List.filter_sublist
  · rw [afterJoin_withRows, hjoin, List.filter_filter]
    simp

/-- A filter step without a band that has succeeded succeeds on its own result, and leaves the same
rows in the same order. It says nothing new either. -/
theorem execute_again [TotalOrderLaws α] {raw : Json} {result : StepOutput α}
    (hraw : decode raw = .ok config)
    (hnumeric : ∀ column low high, config.numeric ≠ some (.band column low high))
    (h : (execute .filter t raw references).outcome = .ok result) :
    ∃ u, result = .ofTable u ∧
      (execute .filter u raw references).outcome = .ok (.ofTable u) ∧
      (execute .filter u raw references).warnings =
        (execute .filter t raw references).warnings := by
  obtain ⟨config', hconfig, hcheck, u, hu, rfl⟩ := execute_eq_ok_iff.mp h
  obtain rfl : config' = config := Except.ok.inj (hconfig.symm.trans hraw)
  obtain ⟨rows, rfl, hrows⟩ := run_eq_ok hu
  have hfirst := execute_eq hraw hcheck hu
  have hsecond := execute_eq hraw (check_withRows hrows hcheck) (run_again hnumeric hu)
  refine ⟨t.withRows rows, rfl, ?_, ?_⟩
  · rw [hsecond]
  · rw [hfirst, hsecond]
    rfl

/-- Two of three rows are ranked first, and the join takes the first of them away; a second run
takes away nothing. -/
theorem execute_again_after_join :
    let t : Table Float :=
      ⟨["region", "sales"],
        [[.text "North", .number 10.0], [.text "South", .number 30.0], [.text "East", .empty],
          [.text "North", .number 20.0]]⟩
    let references : References Float := .ofList [("closed", ⟨["region"], [[.text "South"]]⟩)]
    let raw : Json :=
      .obj
        [ ("category_filter", .obj [("region", .arr [.str "North", .str "South"])]),
          ("numeric_filter",
            .obj [("filter_type", .str "topk"), ("column", .str "sales"), ("k", .int 2)]),
          ("table_filter",
            .obj
              [ ("reference", .str "closed"), ("key_columns", .arr [.str "region"]),
                ("exclude_mode", .bool true) ]) ]
    let u : Table Float := ⟨["region", "sales"], [[.text "North", .number 20.0]]⟩
    (execute .filter t raw references).outcome = .ok (.ofTable u) ∧
      (execute .filter u raw references).outcome = .ok (.ofTable u) := by
  intro t references raw u
  let config : Filter Float :=
    ⟨some (.ofList [("region", [.str "North", .str "South"])]), some (.top "sales" 2 false),
      some ⟨true, some "closed", ["region"], true⟩⟩
  have hraw : decode raw = .ok config := rfl
  have hcheck : config.check (some t) .allowed = .ok () := rfl
  have hnumeric : config.afterNumeric t (config.afterCategories t) =
      .ok [[.text "South", .number 30.0], [.text "North", .number 20.0]] := by
    have hcategories : config.afterCategories t =
        [[.text "North", .number 10.0], [.text "South", .number 30.0],
          [.text "North", .number 20.0]] := rfl
    have h₁ : Quantity.totalLe (30.0 : Float) 10.0 = false := by decide +kernel
    have h₂ : Quantity.totalLe (20.0 : Float) 10.0 = false := by decide +kernel
    have h₃ : Quantity.totalLe (20.0 : Float) 30.0 = true := by decide +kernel
    rw [hcategories]
    change Except.ok (topRows false (numberAt 1) 2 _) = _
    simp [topRows, ranked, List.mergeSort, List.MergeSort.Internal.splitInTwo, ranksBefore,
      numberAt, cellAt, h₁, h₂, h₃]
  have hrun : config.run t references = .ok u := by
    rw [run_eq, hnumeric]
    rfl
  have hfirst : (execute .filter t raw references).outcome = .ok (.ofTable u) :=
    execute_eq_ok_iff.mpr ⟨config, hraw, hcheck, u, hrun, rfl⟩
  have hfilter : ∀ column low high, config.numeric ≠ some (.band column low high) := by
    intro column low high h
    cases h
  obtain ⟨u', hu', hsecond, -⟩ := execute_again hraw hfilter hfirst
  obtain rfl : u = u' := Option.some.inj (congrArg StepOutput.table hu')
  exact ⟨hfirst, hsecond⟩

end Filter
end TableSteps
