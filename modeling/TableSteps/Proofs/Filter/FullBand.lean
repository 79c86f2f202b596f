import TableSteps.Proofs.Binary64.Arithmetic
import TableSteps.Proofs.Filter.Quantile
import TableSteps.Proofs.Filter.Selection
import TableSteps.Proofs.Finite.Pipeline
import TableSteps.Proofs.Wire.Record

/-! # The band from the least to the greatest

From percentile 0 to percentile 100 a band keeps every row with a number, as long as the numbers are
finite. The ends are interpolated like all other quantiles, between a value and itself, and with
finite doubles that comes back to the value. With an infinite one it does not: infinity less itself
is no number, one end of the band is lost, and the band keeps no row at all. -/

namespace TableSteps

open Binary64
open Quantity (Agree)
open Formula (cellOf)

/-! ## The quantiles at the ends -/

section Ends

variable {rest : List Float}

/-- Interpolated between a value and itself, a quantile is the value again or, where the value is
not finite, no number. -/
structure Settles (q x : Float) : Prop where
  agree : isFinite x = true → Agree q x
  isNaN : isFinite x = false → isNaN q = true

theorem Settles.isFinite {q x : Float} (h : Settles q x) (hq : Binary64.isNaN q = false) :
    isFinite x = true := by
  refine Bool.of_not_eq_false fun hx => ?_
  rw [h.isNaN hx] at hq
  cases hq

theorem settles_of_isFinite (x : Float) {way : Float} (hway : isFinite way = true) :
    Settles (x + (x - x) * way) x where
  agree hx := agree_add_zero x (isZero_mul (isZero_sub_self hx) hway)
  isNaN hx := isNaN_add x (isNaN_mul (isNaN_sub_self hx) way)

/-- A percentile that points to a whole position takes the value there. -/
theorem exists_quantile_of_whole (first : Float) {percentile : Float} {i : Nat}
    (hlower : floorNat (quantilePosition rest.length percentile) = i)
    (hupper : ceilNat (quantilePosition rest.length percentile) = i)
    (hway : isFinite (quantilePosition rest.length percentile - ofInt i) = true) :
    ∃ q, quantile? (first :: rest) percentile = some q ∧
      Settles q ((first :: rest).getD i first) := by
  refine ⟨_, rfl, ?_⟩
  dsimp only [Quantity.floorNat, Quantity.ceilNat, Quantity.ofNat]
  rw [hlower, hupper]
  exact settles_of_isFinite _ hway

theorem exists_quantile_zero (first : Float) (hfew : rest.length < 2 ^ 53) :
    ∃ q, quantile? (first :: rest) (Quantity.ofNat 0) = some q ∧ Settles q first := by
  have hshare : Quantity.clamp (ofInt 0) (ofInt 1) (ofInt 0 / ofInt 100) = ofInt 0 := rfl
  have hposition : quantilePosition rest.length (Quantity.ofNat 0 : Float) =
      ofInt 0 * ofInt rest.length := congrArg (· * ofInt rest.length) hshare
  have hzero : Quantity.isZero (ofInt 0 * ofInt rest.length) = true :=
    isZero_mul rfl (isFinite_and_isNaN_ofInt hfew).1
  have hway : isFinite (ofInt 0 * ofInt rest.length - ofInt 0) = true := by
    have hagree : Agree (ofInt 0 * ofInt rest.length) (ofInt 0) := .inr ⟨hzero, rfl⟩
    exact SignedZeroLaws.isFinite_eq (agree_sub hagree (.refl (ofInt 0)))
  refine exists_quantile_of_whole first (i := 0) ?_ ?_ ?_ <;> rw [hposition]
  · exact floorNat_of_isZero hzero
  · exact ceilNat_of_isZero hzero
  · exact hway

theorem exists_quantile_hundred (first : Float) (hfew : rest.length < 2 ^ 53) :
    ∃ q, quantile? (first :: rest) (Quantity.ofNat 100) = some q ∧
      Settles q ((first :: rest).getLast (List.cons_ne_nil _ _)) := by
  have hshare : Quantity.clamp (ofInt 0) (ofInt 1) (ofInt 100 / ofInt 100) = ofInt 1 := by
    decide +kernel
  have hposition : quantilePosition rest.length (Quantity.ofNat 100 : Float) =
      ofInt rest.length :=
    (congrArg (· * ofInt rest.length) hshare).trans (ofInt_one_mul _)
  have hlast : (first :: rest).getLast (List.cons_ne_nil _ _) =
      (first :: rest).getD rest.length first := by
    rw [List.getLast_eq_getElem]
    simp
  rw [hlast]
  refine exists_quantile_of_whole first ?_ ?_ ?_ <;> rw [hposition]
  · exact floorNat_ofInt hfew
  · exact ceilNat_ofInt hfew
  · exact isFinite_of_isZero (isZero_sub_self (isFinite_and_isNaN_ofInt hfew).1)

end Ends

/-! ## The numbers between the ends -/

section Between

variable {x y z : Float}

theorem isFinite_of_totalLe (hxy : totalLe x y = true) (hyz : totalLe y z = true)
    (hx : isFinite x = true) (hz : isFinite z = true) : isFinite y = true := by
  have hbelow : totalRank x ≤ totalRank y := of_decide_eq_true hxy
  have habove : totalRank y ≤ totalRank z := of_decide_eq_true hyz
  have hx' : magnitude x < limit := of_decide_eq_true hx
  have hz' : magnitude z < limit := of_decide_eq_true hz
  unfold totalRank at hbelow habove
  refine decide_eq_true ?_
  cases hy : isNegative y with
  | true =>
    rw [hy, if_pos rfl] at hbelow
    split at hbelow <;> omega
  | false =>
    rw [hy, if_neg Bool.false_ne_true] at habove
    split at habove <;> omega

theorem le_of_totalLe (h : totalLe x y = true) (hx : isFinite x = true) (hy : isFinite y = true) :
    Quantity.le x y = true := by
  have hnumber {z : Float} (hz : isFinite z = true) : Binary64.isNaN z = false :=
    LawfulQuantity.isNaN_of_isFinite (α := Float) hz
  rw [Quantity.le_eq_not_lt (hnumber hx) (hnumber hy), Bool.not_eq_true']
  change lt y x = false
  rw [lt, decide_eq_false (Int.not_lt.mpr (rank_le_of_totalLe h)), Bool.and_false]

end Between

namespace Filter

variable {t : Table Float} {column : String} {rows : List (Row Float)}

/-- The least number of some rows, the greatest one, and the quantiles there. -/
structure Ends (t : Table Float) (column : String) (rows : List (Row Float))
    (least greatest q q' : Float) : Prop where
  band : byNumber t (.band column (Quantity.ofNat 0) (Quantity.ofNat 100)) rows =
    .ok (rows.filter (liesBetween t column q q'))
  least_mem : least ∈ sortedNumbers t column rows
  greatest_mem : greatest ∈ sortedNumbers t column rows
  between : ∀ x ∈ sortedNumbers t column rows,
    totalLe least x = true ∧ totalLe x greatest = true
  settles : Settles q least
  settles' : Settles q' greatest

theorem exists_ends (hcolumn : column ∈ t.columns) (hfew : rows.length ≤ 2 ^ 53)
    (hsome : sortedNumbers t column rows ≠ []) :
    ∃ least greatest q q', Ends t column rows least greatest q q' := by
  obtain ⟨first, rest, hsorted⟩ := List.exists_cons_of_ne_nil hsome
  have hrest : rest.length < 2 ^ 53 := by
    have hlength : (sortedNumbers t column rows).length ≤ rows.length := length_sortedNumbers_le
    rw [hsorted, List.length_cons] at hlength
    omega
  have hpairs : (first :: rest).Pairwise fun x y => totalLe x y = true :=
    hsorted ▸ pairwise_sortedNumbers
  have hrefl (x : Float) : totalLe x x = true := decide_eq_true le_rfl
  obtain ⟨q, hq, hsettles⟩ := exists_quantile_zero first hrest
  obtain ⟨q', hq', hsettles'⟩ := exists_quantile_hundred first hrest
  refine ⟨first, (first :: rest).getLast (List.cons_ne_nil _ _), q, q', ?_, ?_, ?_, ?_, hsettles,
    hsettles'⟩
  · exact byNumber_band_eq hcolumn (hsorted ▸ hq) (hsorted ▸ hq')
  · rw [hsorted]
    exact List.mem_cons_self
  · rw [hsorted]
    exact List.getLast_mem _
  · rw [hsorted]
    exact fun x hx => ⟨hpairs.rel_head_of_rel_head_head hx (hrefl _),
      hpairs.rel_getLast_of_rel_getLast_getLast hx (hrefl _)⟩

/-- Of finite numbers none is beyond the ends, so every row with a number stays. -/
theorem byNumber_full_band (hcolumn : column ∈ t.columns) (hfew : rows.length ≤ 2 ^ 53)
    (hfinite : ∀ row ∈ rows, ∀ x, (cellOf t.columns row column).asNumber = some x →
      isFinite x = true) :
    byNumber t (.band column (Quantity.ofNat 0) (Quantity.ofNat 100)) rows =
      .ok (rows.filter fun row => (cellOf t.columns row column).asNumber.isSome) := by
  by_cases hnone : sortedNumbers t column rows = []
  · rw [byNumber_band_of_none hcolumn hnone, Except.ok.injEq, eq_comm, List.filter_eq_nil_iff]
    exact fun row hrow => by simp [sortedNumbers_eq_nil_iff.mp hnone row hrow]
  · obtain ⟨least, greatest, q, q', h⟩ := exists_ends hcolumn hfew hnone
    have hmem {x : Float} (hx : x ∈ sortedNumbers t column rows) : isFinite x = true := by
      obtain ⟨row, hrow, hx⟩ := mem_sortedNumbers_iff.mp hx
      exact hfinite row hrow x hx
    rw [h.band]
    refine congrArg Except.ok (List.filter_congr fun row hrow => ?_)
    cases hx : (cellOf t.columns row column).asNumber with
    | none => simp [liesBetween, hx]
    | some x =>
      have hsorted := mem_sortedNumbers_iff.mpr ⟨row, hrow, hx⟩
      obtain ⟨hleast, hgreatest⟩ := h.between x hsorted
      have hlow : Quantity.le q x = true := by
        rw [Quantity.le_eq (h.settles.agree (hmem h.least_mem)) (.refl x)]
        exact le_of_totalLe hleast (hmem h.least_mem) (hmem hsorted)
      have hhigh : Quantity.le x q' = true := by
        rw [Quantity.le_eq (.refl x) (h.settles'.agree (hmem h.greatest_mem))]
        exact le_of_totalLe hgreatest (hmem hsorted) (hmem h.greatest_mem)
      simp [liesBetween, hx, hlow, hhigh]

/-- Where one number is not finite, an end is no number, and nothing lies beyond or before it. -/
theorem byNumber_full_band_eq_nil (hcolumn : column ∈ t.columns) (hfew : rows.length ≤ 2 ^ 53)
    {row : Row Float} (hrow : row ∈ rows) {x : Float}
    (hx : (cellOf t.columns row column).asNumber = some x) (hinfinite : isFinite x = false) :
    byNumber t (.band column (Quantity.ofNat 0) (Quantity.ofNat 100)) rows = .ok [] := by
  have hsorted := mem_sortedNumbers_iff.mpr ⟨row, hrow, hx⟩
  obtain ⟨least, greatest, q, q', h⟩ := exists_ends hcolumn hfew (List.ne_nil_of_mem hsorted)
  obtain ⟨hleast, hgreatest⟩ := h.between x hsorted
  rw [h.band, Except.ok.injEq, List.filter_eq_nil_iff]
  intro other _ hother
  obtain ⟨y, -, hy⟩ := (Option.any_eq_true _ _).mp hother
  obtain ⟨hlow, hhigh⟩ := (Bool.and_eq_true _ _).mp hy
  have hfinite : isFinite x = true :=
    isFinite_of_totalLe hleast hgreatest (h.settles.isFinite (Quantity.isNaN_of_le hlow).1)
      (h.settles'.isFinite (Quantity.isNaN_of_le hhigh).2)
  exact Bool.false_ne_true (hinfinite.symm.trans hfinite)

/-! ## What pipelines leave -/

/-- Without a percentile given, a band goes from the least number to the greatest. -/
theorem decode_full_band (column : String) :
    NumberFilter.decode (.obj [("filter_type", .str "percentage"), ("column", .str column)]) =
      .ok (.band column (Quantity.ofNat 0) (Quantity.ofNat 100) : NumberFilter Float) := by
  have htype : (Dictionary.ofList [("filter_type", Json.str "percentage"),
      ("column", .str column)]).get? "filter_type" = some (.str "percentage") := by
    rw [Dictionary.get?_ofList]
    rfl
  simp only [NumberFilter.decode, Wire.Record.tagged, htype]
  refine mapError_eq_ok_iff.mpr ?_
  simp only [Wire.Record.read_seq_eq_ok_iff, Wire.Record.read_map]
  simp [Wire.Record.required, Wire.Record.defaulted, Wire.Record.field, Dictionary.get?_ofList,
    List.lookup, Wire.text]

/-- In a pipeline that starts from finite numbers and in which no step exceeds, the whole band keeps
every row with a number, whatever rows of a table are left. -/
theorem byNumber_full_band_of_pipeline {steps : List PlannedStep} {start u : Table Float}
    {references : References Float} {output : PipelineOutcome Float} (hstart : start.IsFinite)
    (hconfigs : ∀ planned ∈ steps, planned.config.Storable)
    (hrun : (Pipeline.run ⟨steps⟩ start references).outcome = .ok output)
    (hexceeds : ¬ Pipeline.Exceeds steps start references) (hu : output.HasTable u)
    (hcolumn : column ∈ u.columns) (hrows : ∀ row ∈ rows, row ∈ u.rows)
    (hfew : rows.length ≤ 2 ^ 53) :
    byNumber u (.band column (Quantity.ofNat 0) (Quantity.ofNat 100)) rows =
      .ok (rows.filter fun row => (cellOf u.columns row column).asNumber.isSome) := by
  obtain ⟨htable, hresults⟩ := Pipeline.isFinite_runFrom hstart hconfigs
    (fun n planned before step hn hbefore hdecode hover =>
      hexceeds ⟨n, planned, before, step, hn, hbefore, hdecode, hover⟩) hrun
  have hfinite : u.IsFinite := by
    rcases hu with rfl | ⟨result, hresult, hu⟩
    · exact htable
    · exact hresults result hresult u hu
  refine byNumber_full_band hcolumn hfew fun row hrow x hx => ?_
  exact (hfinite.cellAt (hrows row hrow) _).of_asNumber hx

/-- From the least number to the greatest, which is where a band goes without percentiles, a band
keeps the rows with a number if all numbers are finite, and no row if one is not. So it keeps them
all where a pipeline in which no step exceeds has left the table. -/
theorem full_band (hcolumn : column ∈ t.columns) (hfew : rows.length ≤ 2 ^ 53) :
    let whole : NumberFilter Float := .band column (Quantity.ofNat 0) (Quantity.ofNat 100)
    let numeric := rows.filter fun row => (cellOf t.columns row column).asNumber.isSome
    NumberFilter.decode (.obj [("filter_type", .str "percentage"), ("column", .str column)]) =
        .ok whole ∧
      ((∀ row ∈ rows, ∀ x, (cellOf t.columns row column).asNumber = some x → isFinite x = true) →
        byNumber t whole rows = .ok numeric) ∧
      (∀ row ∈ rows, ∀ x, (cellOf t.columns row column).asNumber = some x → isFinite x = false →
        byNumber t whole rows = .ok []) ∧
      ∀ (steps : List PlannedStep) (start : Table Float) (references : References Float)
        (output : PipelineOutcome Float), start.IsFinite →
        (∀ planned ∈ steps, planned.config.Storable) →
        (Pipeline.run ⟨steps⟩ start references).outcome = .ok output →
        ¬ Pipeline.Exceeds steps start references → output.HasTable t →
        (∀ row ∈ rows, row ∈ t.rows) → byNumber t whole rows = .ok numeric := by
  refine ⟨decode_full_band column, byNumber_full_band hcolumn hfew,
    fun row hrow x => byNumber_full_band_eq_nil hcolumn hfew hrow, ?_⟩
  intro steps start references output hstart hconfigs hrun hexceeds ht hrows
  exact byNumber_full_band_of_pipeline hstart hconfigs hrun hexceeds ht hcolumn hrows hfew

/-- The band over all numbers passes over an empty cell. -/
theorem full_band_of_three :
    let t : Table Float := ⟨["k", "v"], [[.text "a", .number 3.0], [.text "a", .empty],
      [.text "b", .number 9.0], [.text "a", .number (-1.5)]]⟩
    let only : Json := .obj [("category_filter", .obj [("k", .arr [.str "a"])])]
    let u : Table Float :=
      ⟨["k", "v"], [[.text "a", .number 3.0], [.text "a", .empty], [.text "a", .number (-1.5)]]⟩
    (Pipeline.run ⟨[⟨.filter, only⟩]⟩ t .empty).outcome = .ok ⟨u, [.ofTable u]⟩ ∧
      byNumber u (.band "v" (Quantity.ofNat 0) (Quantity.ofNat 100)) u.rows =
        .ok [[.text "a", .number 3.0], [.text "a", .number (-1.5)]] ∧
      byNumber t (.band "v" (Quantity.ofNat 0) (Quantity.ofNat 100)) t.rows =
        .ok [[.text "a", .number 3.0], [.text "b", .number 9.0], [.text "a", .number (-1.5)]] := by
  intro t only u
  have hrun : (Pipeline.run ⟨[⟨.filter, only⟩]⟩ t .empty).outcome = .ok ⟨u, [.ofTable u]⟩ := rfl
  have hfinite : t.IsFinite := by
    simp [t, Table.IsFinite, Cell.IsFinite]
    decide +kernel
  have hnumbers : ∀ row ∈ t.rows, ∀ x, (cellOf t.columns row "v").asNumber = some x →
      isFinite x = true := fun row hrow x hx => (hfinite.cellAt hrow _).of_asNumber hx
  have hconfigs : ∀ planned ∈ [PlannedStep.mk .filter only], planned.config.Storable := by
    simp [only]
  have hexceeds : ¬ Pipeline.Exceeds [⟨.filter, only⟩] t .empty := by
    rw [Pipeline.exceeds_singleton_iff]
    rintro ⟨step, hdecode, hover⟩
    cases hdecode
    exact hover
  have hcolumn : "v" ∈ u.columns := List.mem_cons_of_mem _ List.mem_cons_self
  have hfew : u.rows.length ≤ 2 ^ 53 := by simp [u]
  have hfew' : t.rows.length ≤ 2 ^ 53 := by simp [t]
  obtain ⟨-, -, -, hpipeline⟩ := full_band (t := u) hcolumn hfew
  obtain ⟨-, hband, -⟩ := full_band (t := t) hcolumn hfew'
  exact ⟨hrun, hpipeline _ t .empty _ hfinite hconfigs hrun hexceeds (.inl rfl) fun _ hrow => hrow,
    hband hnumbers⟩

/-- Ten times the largest power of ten is infinite, and with it the whole band loses every row. -/
theorem infinite_number_empties_full_band :
    let t : Table Float := ⟨["v"], [[.number 2.0], [.number 1e308]]⟩
    let tenfold : Json := .obj [("operations", .arr [.obj
      [ ("operation_type", .str "add_subject"), ("target_name", .str "w"),
        ("calculation", .obj
          [ ("type", .str "formula"), ("left", .str "v"), ("operator", .str "*"),
            ("right", .int 10) ]) ]])]
    let whole : Json := .obj [("numeric_filter",
      .obj [("filter_type", .str "percentage"), ("column", .str "w")])]
    ∃ u : Table Float,
      (Pipeline.run ⟨[⟨.transform, tenfold⟩, ⟨.filter, whole⟩]⟩ t .empty).outcome =
        .ok ⟨u.withRows [], [.ofTable u, .ofTable (u.withRows [])]⟩ ∧
      (u.rows.filter fun row => (cellOf u.columns row "w").asNumber.isSome).length = 2 := by
  intro t tenfold whole
  let config : Filter Float :=
    ⟨none, some (.band "w" (Quantity.ofNat 0) (Quantity.ofNat 100)), none⟩
  let u : Table Float := ⟨["v", "w"],
    [[.number 2.0, .number (2.0 * WireQuantity.ofInt 10)],
      [.number 1e308, .number (1e308 * WireQuantity.ofInt 10)]]⟩
  have htransform : (execute .transform t tenfold .empty).outcome = .ok (.ofTable u) := rfl
  have hconfig : decode whole = .ok config := rfl
  have hcheck : config.check (some u) .allowed = .ok () := rfl
  have hinfinite : isFinite (1e308 * WireQuantity.ofInt 10) = false := by decide +kernel
  have hnone : byNumber u (.band "w" (Quantity.ofNat 0) (Quantity.ofNat 100)) u.rows = .ok [] :=
    byNumber_full_band_eq_nil (List.mem_cons_of_mem _ List.mem_cons_self)
      (by simp [u]) (List.mem_cons_of_mem _ List.mem_cons_self) rfl hinfinite
  have hfilter : (execute .filter u whole .empty).outcome = .ok (.ofTable (u.withRows [])) :=
    execute_eq_ok_iff.mpr
      ⟨config, hconfig, hcheck, _, run_eq_ok_iff.mpr ⟨[], [], hnone, rfl, rfl⟩, rfl⟩
  exact ⟨u, Pipeline.run_pair_eq_ok_iff.mpr ⟨_, htransform, _, hfilter, rfl⟩, rfl⟩

end Filter

end TableSteps
