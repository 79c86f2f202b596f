import TableSteps.Filter.Run
import TableSteps.Proofs.Outcome

/-! # The rows a filter keeps

A filter narrows: each of its parts answers with rows that it was given, and so the output has rows
of the input alone. A ranking may change their order but brings in none. -/

namespace TableSteps

variable {α : Type}

section Ranking

variable [Quantity α] {ρ : Type} {ascending : Bool} {value : ρ → Option α} {count : Nat}
  {rows : List ρ} {row : ρ}

theorem mem_of_mem_topRows (h : row ∈ topRows ascending value count rows) : row ∈ rows :=
  List.mem_mergeSort.mp (List.mem_of_mem_take h)

end Ranking

namespace Filter

variable {t : Table α} {rows kept : List (Row α)} {row : Row α}

/-! ## Categories -/

section Category

variable [WireQuantity α]

theorem mem_of_mem_byCategory {category : String × List Json}
    (h : row ∈ byCategory t category rows) : row ∈ rows := by
  unfold byCategory at h
  split at h
  · exact h
  · exact (List.mem_filter.mp h).1

theorem mem_of_mem_foldl_byCategory {categories : List (String × List Json)} :
    ∀ {rows : List (Row α)},
      row ∈ categories.foldl (fun rows category => byCategory t category rows) rows →
      row ∈ rows := by
  induction categories with
  | nil => exact id
  | cons category rest ih => exact fun h => mem_of_mem_byCategory (ih h)

theorem mem_of_mem_afterCategories {config : Filter α} (h : row ∈ config.afterCategories t) :
    row ∈ t.rows := by
  unfold afterCategories at h
  split at h
  · exact mem_of_mem_foldl_byCategory h
  · exact h

end Category

/-! ## Numbers -/

section Numeric

variable [Quantity α]

theorem mem_of_mem_byRange {p : Nat} {min max : Option (Bound α)}
    (h : row ∈ byRange p min max rows) : row ∈ rows := by
  unfold byRange at h
  split at h
  · exact h
  · exact (List.mem_filter.mp h).1

theorem mem_of_mem_byBand {p : Nat} {low high : α} (h : row ∈ byBand p low high rows) :
    row ∈ rows := by
  unfold byBand at h
  dsimp only at h
  split at h
  · exact (List.mem_filter.mp h).1
  · cases h

theorem mem_of_byNumber {filter : NumberFilter α} (hkept : byNumber t filter rows = .ok kept)
    (h : row ∈ kept) : row ∈ rows := by
  unfold byNumber at hkept
  split at hkept
  · cases hkept
  · split at hkept
    · cases hkept
      exact mem_of_mem_byRange h
    · split at hkept
      · cases hkept
      · cases hkept
        exact mem_of_mem_topRows h
    · cases hkept
      exact mem_of_mem_byBand h

end Numeric

/-! ## Joins -/

theorem mem_of_byJoin [Quantity α] {filter : JoinFilter} {references : References α}
    (hkept : byJoin t filter references rows = .ok kept) (h : row ∈ kept) : row ∈ rows := by
  obtain ⟨reference, -, hkept⟩ := bind_eq_ok_iff.mp hkept
  obtain ⟨own, -, hkept⟩ := bind_eq_ok_iff.mp hkept
  obtain ⟨others, -, hkept⟩ := bind_eq_ok_iff.mp hkept
  cases hkept
  exact (List.mem_filter.mp h).1

/-! ## All filters in order -/

variable [WireQuantity α] {config : Filter α} {references : References α}

theorem mem_of_afterNumeric (hkept : config.afterNumeric t rows = .ok kept) (h : row ∈ kept) :
    row ∈ rows := by
  unfold afterNumeric at hkept
  split at hkept
  · exact mem_of_byNumber hkept h
  · cases hkept
    exact h

theorem mem_of_afterJoin (hkept : config.afterJoin t references rows = .ok kept) (h : row ∈ kept) :
    row ∈ rows := by
  unfold afterJoin at hkept
  split at hkept
  · exact mem_of_byJoin hkept h
  · cases hkept
    exact h

/-- The output of a filter has the columns of its table over some of its rows. -/
theorem run_eq_ok {u : Table α} (h : config.run t references = .ok u) :
    ∃ rows, u = t.withRows rows ∧ ∀ row ∈ rows, row ∈ t.rows := by
  obtain ⟨numeric, hnumeric, h⟩ := bind_eq_ok_iff.mp h
  obtain ⟨kept, hkept, h⟩ := bind_eq_ok_iff.mp h
  cases h
  refine ⟨kept, rfl, fun row hrow => ?_⟩
  exact mem_of_mem_afterCategories (mem_of_afterNumeric hnumeric (mem_of_afterJoin hkept hrow))

end Filter
end TableSteps
