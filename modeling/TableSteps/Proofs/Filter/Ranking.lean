import TableSteps.Proofs.Filter.Selection

/-! # One ranking for every count

A filter by rank sorts the rows and keeps the first of them. What it sorts by leaves no choice:
numbers stand in their total order, rows without a number behind them, and rows of one rank as they
stood before. So the rows have one ranking, whatever number of them is asked for, and each answer is
a beginning of every longer one.

What is ranked already stays as it is when it is ranked again, also when rows have been taken out of
it: the first of the first rows are the first rows. -/

namespace TableSteps

open Quantity (totalLe)
open Formula (cellOf)

variable {α : Type}

/-! ## The order of the ranks -/

section Order

variable [WireQuantity α] [TotalOrderLaws α] {ascending : Bool}

open TotalOrderLaws (totalLe_trans totalLe_total)

theorem ranksBefore_trans (u v w : Option α) (huv : ranksBefore ascending u v = true)
    (hvw : ranksBefore ascending v w = true) : ranksBefore ascending u w = true := by
  cases u with
  | none =>
    cases v with
    | none => exact hvw
    | some y => cases huv
  | some x =>
    cases w with
    | none => rfl
    | some z =>
      cases v with
      | none => cases hvw
      | some y =>
        cases ascending with
        | true => exact totalLe_trans (x := x) huv hvw
        | false => exact totalLe_trans (x := z) hvw huv

theorem ranksBefore_total (ascending : Bool) (u v : Option α) :
    (ranksBefore ascending u v || ranksBefore ascending v u) = true := by
  cases u with
  | none => cases v <;> rfl
  | some x =>
    cases v with
    | none => rfl
    | some y =>
      cases ascending with
      | true => exact totalLe_total x y
      | false => exact totalLe_total y x

variable {ρ : Type} {value : ρ → Option α} {rows kept : List ρ}

theorem pairwise_ranked (ascending : Bool) (value : ρ → Option α) (rows : List ρ) :
    (ranked ascending value rows).Pairwise fun a b =>
      ranksBefore ascending (value a) (value b) = true :=
  List.pairwise_mergeSort (fun a b c => ranksBefore_trans (value a) (value b) (value c))
    (fun a b => ranksBefore_total ascending (value a) (value b)) rows

/-- Rows taken out of a ranking are ranked as they stand. -/
theorem ranked_of_sublist (h : kept.Sublist (ranked ascending value rows)) :
    ranked ascending value kept = kept :=
  List.mergeSort_of_pairwise ((pairwise_ranked ascending value rows).sublist h)

/-- The first of the first rows are the first rows. -/
theorem topRows_topRows (count count' : Nat) :
    topRows ascending value count (topRows ascending value count' rows) =
      topRows ascending value (min count count') rows := by
  have hkept : (topRows ascending value count' rows).Sublist (ranked ascending value rows) :=
    List.take_sublist ..
  rw [topRows, ranked_of_sublist hkept, topRows, topRows, List.take_take]

end Order

/-! ## The ranking -/

section Ranking

variable [Quantity α] {ascending : Bool} {values : List (Option α)} {order order' : List Nat}

/-- Two values of one rank: numbers that the total order does not tell apart, or no numbers. -/
inductive Tied : Option α → Option α → Prop where
  | numbers {x y : α} (h : totalLe x y = true) (h' : totalLe y x = true) : Tied (some x) (some y)
  | none : Tied none none

/-- The positions of some values in the order of their rank: each position once, numbers in their
order and before what is none, and values of one rank in the order they have. -/
structure IsRanking (ascending : Bool) (values : List (Option α)) (order : List Nat) : Prop where
  perm : order.Perm (List.range values.length)
  numbersFirst {i j : Nat} {y : α} : [i, j].Sublist order → values[j]? = some (some y) →
    ∃ x, values[i]? = some (some x)
  ordered {i j : Nat} {x y : α} : [i, j].Sublist order → values[i]? = some (some x) →
    values[j]? = some (some y) → if ascending then totalLe x y = true else totalLe y x = true
  stable {i j : Nat} {v w : Option α} : [i, j].Sublist order → values[i]? = some v →
    values[j]? = some w → Tied v w → i < j

theorem tied_iff {v w : Option α} :
    Tied v w ↔ ranksBefore ascending v w = true ∧ ranksBefore ascending w v = true := by
  constructor
  · rintro (⟨h, h'⟩ | _)
    · cases ascending with
      | true => exact ⟨h, h'⟩
      | false => exact ⟨h', h⟩
    · exact ⟨rfl, rfl⟩
  · rintro ⟨h, h'⟩
    cases v with
    | none =>
      cases w with
      | none => exact .none
      | some y => cases h
    | some x =>
      cases w with
      | none => cases h'
      | some y =>
        cases ascending with
        | true => exact .numbers h h'
        | false => exact .numbers h' h

/-- One position goes before another: by the rank of its value, then by its place. -/
def Precedes (ascending : Bool) (values : List (Option α)) (i j : Nat) : Prop :=
  ∀ v w, values[i]? = some v → values[j]? = some w →
    ranksBefore ascending v w = true ∧ (ranksBefore ascending w v = true → i ≤ j)

theorem isRanking_iff :
    IsRanking ascending values order ↔
      order.Perm (List.range values.length) ∧ order.Pairwise (Precedes ascending values) := by
  constructor
  · intro h
    refine ⟨h.perm, List.pairwise_iff_forall_sublist.mpr fun {i j} hij v w hv hw => ?_⟩
    have hrank : ranksBefore ascending v w = true := by
      cases w with
      | none => cases v <;> rfl
      | some y =>
        obtain ⟨x, hx⟩ := h.numbersFirst hij hw
        obtain rfl : some x = v := Option.some.inj (hx.symm.trans hv)
        have hxy := h.ordered hij hv hw
        cases ascending <;> exact hxy
    exact ⟨hrank, fun htied => Nat.le_of_lt (h.stable hij hv hw (tied_iff.mpr ⟨hrank, htied⟩))⟩
  · rintro ⟨hperm, h⟩
    have hpair {i j : Nat} (hij : [i, j].Sublist order) : Precedes ascending values i j :=
      List.pairwise_iff_forall_sublist.mp h hij
    refine ⟨hperm, fun {i j y} hij hj => ?_, fun hij hi hj => ?_,
      fun {i j v w} hij hi hj htied => ?_⟩
    · have hlt : i < values.length := List.mem_range.mp (hperm.mem_iff.mp (hij.subset (by simp)))
      have hi : values[i]? = some values[i] := List.getElem?_eq_getElem hlt
      have hrank := (hpair hij _ _ hi hj).1
      cases hv : values[i] with
      | none => rw [hv] at hrank; cases hrank
      | some x => exact ⟨x, hi.trans (congrArg some hv)⟩
    · have hrank := (hpair hij _ _ hi hj).1
      cases ascending <;> exact hrank
    · have hle : i ≤ j := (hpair hij _ _ hi hj).2 (tied_iff.mp htied).2
      refine Nat.lt_of_le_of_ne hle fun heq => ?_
      subst heq
      have hnodup : order.Nodup := hperm.symm.nodup List.nodup_range
      exact List.nodup_iff_sublist.mp hnodup i hij

/-- There is no other ranking. -/
theorem IsRanking.unique (h : IsRanking ascending values order)
    (h' : IsRanking ascending values order') : order = order' := by
  obtain ⟨hperm, hpairs⟩ := isRanking_iff.mp h
  obtain ⟨hperm', hpairs'⟩ := isRanking_iff.mp h'
  refine List.Perm.eq_of_pairwise (fun i j hi hj hij hji => ?_) hpairs hpairs'
    (hperm.trans hperm'.symm)
  have hget {k : Nat} (hk : k < values.length) : values[k]? = some values[k] :=
    List.getElem?_eq_getElem hk
  have hi' := hget (List.mem_range.mp (hperm.mem_iff.mp hi))
  have hj' := hget (List.mem_range.mp (hperm'.mem_iff.mp hj))
  obtain ⟨hrank, hle⟩ := hij _ _ hi' hj'
  obtain ⟨hrank', hle'⟩ := hji _ _ hj' hi'
  exact Nat.le_antisymm (hle hrank') (hle' hrank)

/-- The positions that a stable sort by rank takes the values from. -/
def rankedPositions (ascending : Bool) (values : List (Option α)) : List Nat :=
  (values.zipIdx.mergeSort (List.zipIdxLE (ranksBefore ascending))).map Prod.snd

end Ranking

section Sorting

variable [WireQuantity α] [TotalOrderLaws α]

theorem isRanking_rankedPositions (ascending : Bool) (values : List (Option α)) :
    IsRanking ascending values (rankedPositions ascending values) := by
  refine isRanking_iff.mpr ⟨?_, List.pairwise_map.mpr ?_⟩
  · rw [List.range_eq_range', ← List.zipIdx_map_snd]
    exact (List.mergeSort_perm ..).map Prod.snd
  · have hsorted := List.pairwise_mergeSort (List.zipIdxLE_trans ranksBefore_trans)
      (List.zipIdxLE_total (ranksBefore_total ascending)) values.zipIdx
    refine hsorted.imp_of_mem fun {a b} ha hb hle v w hv hw => ?_
    have hvalue {c : Option α × Nat} {v : Option α} (hv : values[c.2]? = some v)
        (hc : c ∈ values.zipIdx.mergeSort (List.zipIdxLE (ranksBefore ascending))) : v = c.1 := by
      have hget := List.mem_zipIdx_iff_getElem?.mp (List.mem_mergeSort.mp hc)
      exact Option.some.inj (hv.symm.trans hget)
    obtain rfl := hvalue hv ha
    obtain rfl := hvalue hw hb
    unfold List.zipIdxLE at hle
    split at hle
    · rename_i hrank
      refine ⟨hrank, fun htied => ?_⟩
      rw [if_pos htied] at hle
      exact of_decide_eq_true hle
    · cases hle

omit [TotalOrderLaws α] in
/-- The first rows of a ranking are those at the first of the ranked positions. -/
theorem topRows_eq_filterMap {ρ : Type} {ascending : Bool} {value : ρ → Option α} {rows : List ρ}
    {count : Nat} :
    topRows ascending value count rows =
      ((rankedPositions ascending (rows.map value)).take count).filterMap (rows[·]?) := by
  let le : ρ → ρ → Bool := fun a b => ranksBefore ascending (value a) (value b)
  let sorted := rows.zipIdx.mergeSort (List.zipIdxLE le)
  have hrows : ranked ascending value rows = sorted.map Prod.fst := List.mergeSort_zipIdx.symm
  have hpositions : rankedPositions ascending (rows.map value) = sorted.map Prod.snd := by
    have hvalues : (sorted.map (Prod.map value id)) =
        (rows.map value).zipIdx.mergeSort (List.zipIdxLE (ranksBefore ascending)) := by
      rw [List.zipIdx_map]
      exact List.map_mergeSort fun _ _ _ _ => rfl
    rw [rankedPositions, ← hvalues, List.map_map]
    rfl
  rw [topRows, hrows, hpositions, ← List.map_take, ← List.map_take, List.filterMap_map]
  rw [← List.filterMap_eq_map]
  refine List.filterMap_congr fun a ha => ?_
  have hmem : a ∈ rows.zipIdx := List.mem_mergeSort.mp (List.mem_of_mem_take ha)
  exact (List.mem_zipIdx_iff_getElem?.mp hmem).symm

end Sorting

/-! ## The filter -/

namespace Filter

/-- The filter that keeps the first rows of a ranking and does nothing else. -/
def byRank (column : String) (count : Int) (ascending : Bool) : Filter α :=
  ⟨none, some (.top column count ascending), none⟩

variable [WireQuantity α] {t : Table α} {column : String}

theorem byNumber_top_eq_ok_iff {count : Int} {ascending : Bool} {rows kept : List (Row α)} :
    byNumber t (.top column count ascending) rows = .ok kept ↔
      column ∈ t.columns ∧ 0 < count ∧
        kept = topRows ascending (fun row => (cellOf t.columns row column).asNumber) count.toNat
          rows := by
  by_cases hcolumn : column ∈ t.columns
  · have hcells : topRows ascending (numberAt (t.columns.idxOf column)) count.toNat rows =
        topRows ascending (fun row => (cellOf t.columns row column).asNumber) count.toNat rows :=
      rfl
    simp only [byNumber, NumberFilter.column, Table.columnIndex?_of_mem hcolumn, hcells, hcolumn,
      true_and]
    by_cases hcount : 0 < count
    · simp [hcount, if_neg (Int.not_le.mpr hcount), eq_comm]
    · simp [hcount, if_pos (Int.not_lt.mp hcount), refuse]
  · have hnone : t.columnIndex? column = none := List.idxOf?_eq_none_iff.mpr hcolumn
    simp [byNumber, NumberFilter.column, hnone, hcolumn, refuse]

theorem run_byRank_eq (hcolumn : column ∈ t.columns) {count : Int} (hcount : 0 < count)
    (ascending : Bool) (references : References α) :
    (byRank column count ascending).run t references = .ok (t.withRows
      (topRows ascending (fun row => (cellOf t.columns row column).asNumber) count.toNat
        t.rows)) :=
  run_eq_ok_iff.mpr ⟨_, _, byNumber_top_eq_ok_iff.mpr ⟨hcolumn, hcount, rfl⟩, rfl, rfl⟩

/-- The rows that a filter is given have one ranking by the numbers in a column, and its first rows
are what the filter by rank keeps of them, however many it is asked for. So the rows kept are a
beginning of those kept for any larger number, and one such filter after another keeps what the one
that asks for fewer rows keeps. -/
theorem one_ranking [TotalOrderLaws α] (hcolumn : column ∈ t.columns) (ascending : Bool)
    (rows : List (Row α)) (references : References α) :
    let values := rows.map fun row => (cellOf t.columns row column).asNumber
    ∃ ranking, IsRanking ascending values ranking ∧
      (∀ other, IsRanking ascending values other → other = ranking) ∧
      (∀ k : Int, 0 < k →
        byNumber t (.top column k ascending) rows =
          .ok ((ranking.take (min k.toNat rows.length)).filterMap (rows[·]?))) ∧
      (∀ k k' : Int, 0 < k → k ≤ k' → ∃ kept kept',
        byNumber t (.top column k ascending) rows = .ok kept ∧
          byNumber t (.top column k' ascending) rows = .ok kept' ∧ kept <+: kept') ∧
      ∀ k₁ k₂ : Int, 0 < k₁ → 0 < k₂ →
        ((byRank column k₂ ascending).run (t.withRows rows) references >>= fun u =>
            (byRank column k₁ ascending).run u references) =
          (byRank column (min k₁ k₂) ascending).run (t.withRows rows) references := by
  intro values
  have hranking := isRanking_rankedPositions ascending values
  refine ⟨_, hranking, fun other hother => hother.unique hranking, fun k hk => ?_,
    fun k k' hk hle => ?_, fun k₁ k₂ hk₁ hk₂ => ?_⟩
  · have hlength : (rankedPositions ascending values).length = rows.length := by
      rw [hranking.perm.length_eq, List.length_range, List.length_map]
    refine byNumber_top_eq_ok_iff.mpr ⟨hcolumn, hk, ?_⟩
    rw [topRows_eq_filterMap]
    congr 1
    rw [List.take_eq_take_iff, hlength]
    omega
  · refine ⟨_, _, byNumber_top_eq_ok_iff.mpr ⟨hcolumn, hk, rfl⟩,
      byNumber_top_eq_ok_iff.mpr ⟨hcolumn, by omega, rfl⟩, ?_⟩
    exact List.take_prefix_take_left (by omega)
  · have hmin : (min k₁ k₂).toNat = min k₁.toNat k₂.toNat := by omega
    have hrun {k : Int} (hk : 0 < k) (others : List (Row α)) :=
      run_byRank_eq (t := t.withRows others) hcolumn hk ascending references
    rw [hrun hk₂, ok_bind, hrun (by omega), hmin, ← topRows_topRows]
    exact hrun hk₁ _

/-- Fives in their order, then zero, then the zero below it, then the rows without a number. -/
theorem one_ranking_of_six :
    let t : Table Float :=
      ⟨["id", "v"],
        [[.text "a", .number (-0.0)], [.text "b", .empty], [.text "c", .number 0.0],
          [.text "d", .text " 5 "], [.text "e", .number 5.0], [.text "f", .text "n/a"]]⟩
    let values := t.rows.map fun row => (cellOf t.columns row "v").asNumber
    "v" ∈ t.columns ∧ IsRanking false values [3, 4, 2, 0, 1, 5] ∧
      byNumber t (.top "v" 3 false) t.rows =
        .ok [[.text "d", .text " 5 "], [.text "e", .number 5.0], [.text "c", .number 0.0]] ∧
      (∃ kept, byNumber t (.top "v" 9 false) t.rows = .ok kept ∧
        [[.text "d", .text " 5 "], [.text "e", .number 5.0], [.text "c", .number 0.0]] <+: kept) ∧
      ((byRank "v" 3 false).run t .empty >>= fun u => (byRank "v" 2 false).run u .empty) =
        (byRank "v" 2 false).run t .empty := by
  intro t values
  have hcolumn : "v" ∈ t.columns := by simp [t]
  have hvalues : values =
      [some (-0.0), none, some 0.0, some 5.0, some 5.0, none] := rfl
  have hranking : IsRanking false values [3, 4, 2, 0, 1, 5] := by
    rw [hvalues, isRanking_iff]
    refine ⟨by decide, ?_⟩
    have h₁ : totalLe (-0.0 : Float) 0.0 = true := by decide +kernel
    have h₂ : totalLe (0.0 : Float) (-0.0) = false := by decide +kernel
    have h₃ : totalLe (-0.0 : Float) 5.0 = true := by decide +kernel
    have h₄ : totalLe (5.0 : Float) (-0.0) = false := by decide +kernel
    have h₅ : totalLe (0.0 : Float) 5.0 = true := by decide +kernel
    have h₆ : totalLe (5.0 : Float) 0.0 = false := by decide +kernel
    have h₇ : totalLe (5.0 : Float) 5.0 = true := by decide +kernel
    simp [Precedes, ranksBefore, h₁, h₂, h₃, h₄, h₅, h₆, h₇]
  obtain ⟨ranking, -, hunique, hkept, hlonger, hagain⟩ :=
    one_ranking hcolumn false t.rows (.empty : References Float)
  obtain rfl := hunique _ hranking
  have hthree := hkept 3 (by decide)
  obtain ⟨kept, kept', hthree', hnine, hbeginning⟩ := hlonger 3 9 (by decide) (by decide)
  obtain rfl := Except.ok.inj (hthree.symm.trans hthree')
  exact ⟨hcolumn, hranking, hthree, ⟨kept', hnine, hbeginning⟩, hagain 2 3 (by decide) (by decide)⟩

end Filter
end TableSteps
