import Mathlib.Data.List.Nodup
import Mathlib.Data.List.ProdSigma
import Mathlib.Data.List.ReduceOption
import TableSteps.Proofs.Chart.Columns
import TableSteps.Proofs.Indexing.Heatmap
import TableSteps.Proofs.Quantity.Exact

/-! # The pivot of a heatmap

Row by row, a number is added where the labels of its row meet. The labels of an axis are distinct,
so one entry changes at a time: at every moment the entry at two labels is the sum of the numbers
that the rows so far have brought there. The labels are those of the rows, so every number is brought
somewhere; with exact sums, nothing is lost and nothing counted twice. -/

namespace TableSteps.Heatmap

open Quantity (zero)

variable {α : Type} [Quantity α]

/-! ## Tables of entries -/

/-- A line for every `y` and in it a place for every `x`. -/
def tabulate (xs ys : List String) (entry : String → String → Option α) : Matrix α :=
  ys.map fun y => xs.map fun x => entry x y

/-- Of distinct keys, only the one at the place of a key is that key. -/
theorem modify_map_idxOf {κ β : Type} [DecidableEq κ] {keys : List κ} (hkeys : keys.Nodup) (key : κ)
    (f : κ → β) (change : β → β) :
    (keys.map f).modify (keys.idxOf key) change =
      keys.map fun k => if k = key then change (f k) else f k := by
  induction keys with
  | nil => simp
  | cons k rest ih =>
    obtain ⟨hk, hrest⟩ := List.nodup_cons.mp hkeys
    by_cases h : k = key
    · subst h
      have hothers : ∀ k' ∈ rest, f k' = if k' = k then change (f k') else f k' :=
        fun k' hk' => (if_neg fun he : k' = k => hk (he ▸ hk')).symm
      simp [List.map_congr_left hothers]
    · simp [h, ih hrest]

/-- A number is added at one entry, that at its labels. -/
theorem addAt_tabulate {xs ys : List String} (hxs : xs.Nodup) (hys : ys.Nodup)
    (entry : String → String → Option α) (x y : String) (n : α) :
    addAt (tabulate xs ys entry) (ys.idxOf y) (xs.idxOf x) n =
      tabulate xs ys fun x' y' =>
        if x' = x ∧ y' = y then some ((entry x' y').getD zero + n) else entry x' y' := by
  rw [addAt, tabulate, modify_map_idxOf hys]
  refine List.map_congr_left fun y' _ => ?_
  by_cases hy : y' = y
  · rw [if_pos hy, modify_map_idxOf hxs]
    simp [hy]
  · simp [hy]

/-! ## Sums where labels meet -/

/-- The sum of some numbers, in order and from zero on; there is none without a number. -/
def sum? (numbers : List α) : Option α :=
  if numbers.isEmpty then none else some (numbers.foldl (· + ·) zero)

theorem sum?_eq_none_iff {numbers : List α} : sum? numbers = none ↔ numbers = [] := by
  simp [sum?]

theorem sum?_concat (numbers : List α) (n : α) :
    sum? (numbers ++ [n]) = some ((sum? numbers).getD zero + n) := by
  cases numbers <;> simp [sum?]

/-- The numbers of the readings with these labels, in order. -/
def numbersAt (rs : List (Reading α)) (x y : String) : List α :=
  (rs.filter fun r => r.x = x ∧ r.y = y).filterMap Reading.value

/-- A reading has its effect at its labels, and only if it is a number. -/
theorem addReading_tabulate {xs ys : List String} (hxs : xs.Nodup) (hys : ys.Nodup)
    (rs : List (Reading α)) (r : Reading α) :
    addReading xs ys (tabulate xs ys fun x y => sum? (numbersAt rs x y)) r =
      tabulate xs ys fun x y => sum? (numbersAt (rs ++ [r]) x y) := by
  unfold addReading
  cases hvalue : r.value with
  | none =>
    have hsame (x y : String) : numbersAt (rs ++ [r]) x y = numbersAt rs x y := by
      by_cases h : r.x = x ∧ r.y = y <;> simp [numbersAt, h, hvalue]
    simp only [hsame]
  | some n =>
    simp only
    rw [addAt_tabulate hxs hys]
    congr 1
    funext x y
    by_cases h : r.x = x ∧ r.y = y
    · have hlonger : numbersAt (rs ++ [r]) x y = numbersAt rs x y ++ [n] := by
        simp [numbersAt, h, hvalue]
      rw [if_pos ⟨h.1.symm, h.2.symm⟩, hlonger, sum?_concat]
    · have hsame : numbersAt (rs ++ [r]) x y = numbersAt rs x y := by
        simp [numbersAt, h]
      rw [if_neg fun he => h ⟨he.1.symm, he.2.symm⟩, hsame]

/-- What all rows leave of the blank matrix. -/
theorem pivot_eq_tabulate {xs ys : List String} (hxs : xs.Nodup) (hys : ys.Nodup)
    (rs : List (Reading α)) :
    pivot xs ys rs = tabulate xs ys fun x y => sum? (numbersAt rs x y) := by
  obtain ⟨back, rfl⟩ : ∃ back : List (Reading α), rs = back.reverse := ⟨rs.reverse, by simp⟩
  induction back with
  | nil => simp [pivot, blank, tabulate, numbersAt, sum?]
  | cons r rest ih =>
    have hconcat : pivot xs ys (rest.reverse ++ [r]) =
        addReading xs ys (pivot xs ys rest.reverse) r := by
      simp [pivot]
    rw [List.reverse_cons, hconcat, ih, addReading_tabulate hxs hys]

/-! ## No number is lost -/

/-- The numbers of some readings by the labels where they meet, line by line. -/
def shares (xs ys : List String) (rs : List (Reading α)) : List (List α) :=
  ys.flatMap fun y => xs.map fun x => numbersAt rs x y

omit [Quantity α] in
/-- Over labels that cover all readings, every number has its place, and one place only. -/
theorem flatten_shares_perm {xs ys : List String} (hxs : xs.Nodup) (hys : ys.Nodup)
    {rs : List (Reading α)} (hcover : ∀ r ∈ rs, r.x ∈ xs ∧ r.y ∈ ys) :
    (shares xs ys rs).flatten.Perm (rs.filterMap Reading.value) := by
  have hpairs : ys ×ˢ xs = ys.flatMap fun y => xs.map fun x => (y, x) := rfl
  have hkeys := Group.flatMap_filter_perm (fun r : Reading α => (r.y, r.x))
    (hys.product hxs) fun r hr => List.mem_product.mpr (hcover r hr).symm
  have hnumbers : (shares xs ys rs).flatten = ((ys ×ˢ xs).flatMap fun k =>
      rs.filter fun r => (r.y, r.x) = k).filterMap Reading.value := by
    simp [shares, hpairs, List.filterMap_flatMap, List.flatMap_assoc, List.flatMap_map, numbersAt,
      and_comm, ← List.flatMap_id]
  rw [hnumbers]
  exact hkeys.filterMap Reading.value

/-- Where sums are exact, the sums of some lists add up to the sum of all their items. -/
theorem foldl_filterMap_sum? (h : Quantity.ExactSums α) (parts : List (List α)) :
    ∀ start : α, (parts.filterMap sum?).foldl (· + ·) start =
      parts.flatten.foldl (· + ·) start := by
  induction parts with
  | nil => exact fun _ => rfl
  | cons part rest ih =>
    intro start
    rw [List.flatten_cons, List.foldl_append, ← ih]
    by_cases hpart : part = []
    · simp [hpart, sum?]
    · have hsum : sum? part = some (part.foldl (· + ·) zero) := by simp [sum?, hpart]
      rw [List.filterMap_cons_some hsum, List.foldl_cons, ← h.foldl_eq_add]

/-- Where sums are exact, the entries add up to what the readings add up to. -/
theorem foldl_entries_pivot (h : Quantity.ExactSums α) {xs ys : List String} (hxs : xs.Nodup)
    (hys : ys.Nodup) {rs : List (Reading α)} (hcover : ∀ r ∈ rs, r.x ∈ xs ∧ r.y ∈ ys) :
    (pivot xs ys rs).flatten.reduceOption.foldl (· + ·) zero =
      (rs.filterMap Reading.value).foldl (· + ·) zero := by
  have hentries : (pivot xs ys rs).flatten.reduceOption = (shares xs ys rs).filterMap sum? := by
    rw [pivot_eq_tabulate hxs hys, tabulate, shares, ← List.flatMap_def, List.reduceOption,
      List.filterMap_flatMap, List.filterMap_flatMap]
    simp only [List.filterMap_map, Function.comp_def, id_eq]
  rw [hentries, foldl_filterMap_sum? h, h.foldl_eq_of_perm (flatten_shares_perm hxs hys hcover)]

/-! ## The matrix of a table -/

variable {t : Table α} {x y z : String}

/-- The rows with these labels in two columns. -/
def rowsAt (t : Table α) (x y xLabel yLabel : String) : List (Row α) :=
  t.rows.filter fun row =>
    (cellAt row (t.positionOf x)).label = xLabel ∧ (cellAt row (t.positionOf y)).label = yLabel

/-- A matrix over the labels of two columns of a table, with the sums of a third: for a line and a
place, of the numbers of the rows that have both labels. -/
structure IsPivot (t : Table α) (x y z : String) (xs ys : List String) (m : Matrix α) : Prop where
  places : FirstSeen (t.labels x) xs
  lines : FirstSeen (t.labels y) ys
  shape : Indexed.HasShape ys.length xs.length m
  entries : ∀ (i j : Nat) (yLabel xLabel : String), ys[i]? = some yLabel → xs[j]? = some xLabel →
    ∃ (cells : List (Option α)) (entry : Option α), m[i]? = some cells ∧ cells[j]? = some entry ∧
      (entry = none ↔ ∀ row ∈ rowsAt t x y xLabel yLabel,
        (cellAt row (t.positionOf z)).asNumber = none) ∧
      ∀ n, entry = some n → n = ((rowsAt t x y xLabel yLabel).filterMap fun row =>
        (cellAt row (t.positionOf z)).asNumber).foldl (· + ·) zero
  conserved : Quantity.ExactSums α →
    m.flatten.reduceOption.foldl (· + ·) zero = (t.numbers z).reduceOption.foldl (· + ·) zero

theorem numbersAt_readings (z xLabel yLabel : String) :
    numbersAt (readings t (t.positionOf x) (t.positionOf y) (t.positionOf z)) xLabel yLabel =
      (rowsAt t x y xLabel yLabel).filterMap fun row =>
        (cellAt row (t.positionOf z)).asNumber := by
  rw [numbersAt, readings, List.filter_map, List.filterMap_map]
  rfl

theorem matrix_eq_tabulate (t : Table α) (x y z : String) :
    matrix t x y z = tabulate (t.categories x) (t.categories y) fun xLabel yLabel =>
      sum? ((rowsAt t x y xLabel yLabel).filterMap fun row =>
        (cellAt row (t.positionOf z)).asNumber) := by
  rw [matrix, pivot_eq_tabulate (t.firstSeen_categories x).nodup (t.firstSeen_categories y).nodup]
  simp only [numbersAt_readings]

theorem foldl_entries_matrix (h : Quantity.ExactSums α) (hx : x ∈ t.columns) (hy : y ∈ t.columns)
    (hz : z ∈ t.columns) :
    (matrix t x y z).flatten.reduceOption.foldl (· + ·) zero =
      (t.numbers z).reduceOption.foldl (· + ·) zero := by
  have hcover : ∀ r ∈ readings t (t.positionOf x) (t.positionOf y) (t.positionOf z),
      r.x ∈ t.categories x ∧ r.y ∈ t.categories y := by
    intro r hr
    obtain ⟨row, hrow, rfl⟩ := List.mem_map.mp hr
    rw [(t.firstSeen_categories x).mem_iff, (t.firstSeen_categories y).mem_iff,
      Table.labels_eq_map hx, Table.labels_eq_map hy]
    exact ⟨List.mem_map_of_mem hrow, List.mem_map_of_mem hrow⟩
  have hnumbers : (readings t (t.positionOf x) (t.positionOf y) (t.positionOf z)).filterMap
      Reading.value = (t.numbers z).reduceOption := by
    rw [Table.numbers_eq_map hz, readings, List.reduceOption, List.filterMap_map,
      List.filterMap_map]
    rfl
  rw [matrix, foldl_entries_pivot h (t.firstSeen_categories x).nodup
    (t.firstSeen_categories y).nodup hcover, hnumbers]

theorem isPivot_matrix (hx : x ∈ t.columns) (hy : y ∈ t.columns) (hz : z ∈ t.columns) :
    IsPivot t x y z (t.categories x) (t.categories y) (matrix t x y z) where
  places := t.firstSeen_categories x
  lines := t.firstSeen_categories y
  shape := by
    rw [matrix_eq_tabulate]
    exact ⟨by simp [tabulate], by simp [tabulate]⟩
  entries := by
    intro i j yLabel xLabel hi hj
    refine ⟨_, _, by rw [matrix_eq_tabulate, tabulate, List.getElem?_map, hi, Option.map_some],
      by rw [List.getElem?_map, hj, Option.map_some], ?_, fun n hn => ?_⟩
    · rw [sum?_eq_none_iff, List.filterMap_eq_nil_iff]
    · unfold sum? at hn
      split at hn
      · cases hn
      · exact (Option.some.inj hn).symm
  conserved h := foldl_entries_matrix h hx hy hz

/-! ## The chart -/

/-- A heatmap over columns that are there shows the distinct labels of both axes and the pivot of the
third column over them. Entries that no number has reached are null; like any number in a document,
so is a sum that is not finite. -/
theorem build_pivots {α : Type} [WireQuantity α] {t : Table α} {options : Options} {x y z : String}
    (hx : Options.column options t "x" = .ok x) (hy : Options.column options t "y" = .ok y)
    (hz : Options.column options t "z" = .ok z) :
    ∃ trace layout xs ys m, build t options = .ok ⟨[trace], layout⟩ ∧
      trace.member? "x" = some (.strings xs) ∧ trace.member? "y" = some (.strings ys) ∧
      trace.member? "z" = some (.arr (m.map numbersToJson)) ∧ IsPivot t x y z xs ys m := by
  have hbuild : build t options = .ok
      ⟨[Json.record
          [("type", .str "heatmap"), ("name", .str z), ("x", .strings (t.categories x)),
            ("y", .strings (t.categories y)), ("z", .arr ((matrix t x y z).map numbersToJson))]],
        Dictionary.ofList [("xaxis", axisTitle x), ("yaxis", axisTitle y)]⟩ := by
    rw [build, hx, ok_bind, hy, ok_bind, hz]
    rfl
  refine ⟨_, _, t.categories x, t.categories y, matrix t x y z, hbuild, ?_, ?_, ?_,
    isPivot_matrix (Options.column_mem hx) (Options.column_mem hy) (Options.column_mem hz)⟩
  all_goals simp [List.lookup_cons]

/-- Temperatures by day and site: two of one place add up, and one that is no number counts for
nothing. -/
theorem build_pivots_temperatures :
    let t : Table ℚ :=
      ⟨["day", "site", "temp"],
        [[.text "Mon", .text "A", .number 10], [.text "Mon", .text "B", .number 12],
          [.text "Tue", .text "A", .number 11], [.text "Mon", .text "A", .number 1],
          [.text "Tue", .text "B", .empty]]⟩
    let options : Options := .ofList [("x", .str "day"), ("y", .str "site"), ("z", .str "temp")]
    ∃ trace layout xs ys m, build t options = .ok ⟨[trace], layout⟩ ∧
      trace.member? "z" = some (.arr (m.map numbersToJson)) ∧
      IsPivot t "day" "site" "temp" xs ys m ∧
      m.flatten.reduceOption.foldl (· + ·) zero = (34 : ℚ) := by
  intro t options
  obtain ⟨trace, layout, xs, ys, m, hbuild, -, -, hz, hpivot⟩ := build_pivots
    (show Options.column options t "x" = .ok "day" from rfl)
    (show Options.column options t "y" = .ok "site" from rfl)
    (show Options.column options t "z" = .ok "temp" from rfl)
  refine ⟨trace, layout, xs, ys, m, hbuild, hz, hpivot, ?_⟩
  rw [hpivot.conserved Rational.exactSums]
  decide +kernel

end TableSteps.Heatmap
