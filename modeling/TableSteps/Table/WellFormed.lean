import TableSteps.Table.Records

/-! # Operations that keep tables well formed

Whatever builds a table from parts checks them, so its answer is a table only if it is well formed;
whatever changes one keeps it well formed. -/

namespace TableSteps

theorem firstRepeat?_go_eq_none_iff (seen names : List String) :
    firstRepeat?.go seen names = none ↔ names.Nodup ∧ ∀ name ∈ names, name ∉ seen := by
  induction names generalizing seen with
  | nil => simp [firstRepeat?.go]
  | cons name rest ih =>
    by_cases h : name ∈ seen
    · simp [firstRepeat?.go, h]
    · simp only [firstRepeat?.go, h, if_false, ih, List.nodup_cons, List.mem_cons, not_or]
      grind

/-- No name stands a second time exactly when the names are distinct. -/
theorem firstRepeat?_eq_none_iff {names : List String} :
    firstRepeat? names = none ↔ names.Nodup := by
  simp [firstRepeat?, firstRepeat?_go_eq_none_iff]

theorem nodup_eraseDups {β : Type} [BEq β] [LawfulBEq β] (xs : List β) : xs.eraseDups.Nodup := by
  match xs with
  | [] => simp
  | x :: rest =>
    rw [List.eraseDups_cons, List.nodup_cons]
    refine ⟨?_, nodup_eraseDups (rest.filter fun y => !y == x)⟩
    simp [List.mem_eraseDups]
termination_by xs.length
decreasing_by
  have := List.length_filter_le (fun y => !y == x) rest
  simp only [List.length_cons]
  omega

/-- The position of the first occurrence, however it is looked for. -/
theorem idxOf_of_idxOf? {β : Type} [BEq β] {names : List β} {name : β} {p : Nat}
    (h : names.idxOf? name = some p) : names.idxOf name = p := by
  induction names generalizing p with
  | nil => simp at h
  | cons first rest ih =>
    rw [List.idxOf?_cons] at h
    rw [List.idxOf_cons]
    split at h
    · rename_i hfirst
      cases h
      simp [hfirst]
    · rename_i hfirst
      obtain ⟨q, hq, rfl⟩ := Option.map_eq_some_iff.mp h
      simp [hfirst, ih hq]

theorem mem_of_idxOf? {β : Type} [BEq β] [LawfulBEq β] {names : List β} {name : β} {p : Nat}
    (h : names.idxOf? name = some p) : name ∈ names := by
  obtain ⟨hp, rfl, -⟩ := List.idxOf?_eq_some_iff.mp h
  exact List.getElem_mem hp

/-! ## Traversals that may fail -/

section Traversal

variable {β γ ε : Type} {f : β → Except ε γ} {xs : List β} {ys : List γ}

theorem mapM_eq_ok_iff : xs.mapM f = .ok ys ↔ xs.map f = ys.map .ok := by
  induction xs generalizing ys with
  | nil => cases ys <;> simp [pure, Except.pure]
  | cons x rest ih =>
    have hcons : (x :: rest).mapM f = .ok ys ↔
        ∃ y zs, f x = .ok y ∧ rest.mapM f = .ok zs ∧ y :: zs = ys := by
      rw [List.mapM_cons]
      cases f x <;> cases rest.mapM f <;> simp [bind, Except.bind, pure, Except.pure]
    rw [hcons]
    simp only [ih]
    cases ys <;> simp

theorem length_of_mapM_eq_ok (h : xs.mapM f = .ok ys) : ys.length = xs.length := by
  simpa using (congrArg List.length (mapM_eq_ok_iff.mp h)).symm

/-- The results of a traversal stand at the places of the items. -/
theorem exists_getElem?_of_mapM_eq_ok (h : xs.mapM f = .ok ys) {i : Nat} {x : β}
    (hx : xs[i]? = some x) : ∃ y, ys[i]? = some y ∧ f x = .ok y := by
  have hat := congrArg (·[i]?) (mapM_eq_ok_iff.mp h)
  simp only [List.getElem?_map, hx, Option.map_some] at hat
  obtain ⟨y, hy, heq⟩ := Option.map_eq_some_iff.mp hat.symm
  exact ⟨y, hy, heq.symm⟩

theorem exists_of_mapM_eq_ok (h : xs.mapM f = .ok ys) {x : β} (hx : x ∈ xs) :
    ∃ y, f x = .ok y := by
  obtain ⟨i, hi⟩ := List.mem_iff_getElem?.mp hx
  obtain ⟨y, -, hy⟩ := exists_getElem?_of_mapM_eq_ok h hi
  exact ⟨y, hy⟩

theorem exists_of_mem_mapM (h : xs.mapM f = .ok ys) {y : γ} (hy : y ∈ ys) :
    ∃ x ∈ xs, f x = .ok y := by
  have hmem : Except.ok y ∈ xs.map f := mapM_eq_ok_iff.mp h ▸ List.mem_map_of_mem hy
  simpa using hmem

end Traversal

namespace Table

variable {α : Type}

theorem firstMisfit?_eq_none_iff {width i : Nat} {rows : List (Row α)} :
    firstMisfit? width i rows = none ↔ ∀ row ∈ rows, row.length = width := by
  induction rows generalizing i with
  | nil => simp [firstMisfit?]
  | cons row rest ih => by_cases h : row.length = width <;> simp [firstMisfit?, h, ih]

/-! ## Columns -/

theorem hasColumn_iff {t : Table α} {name : String} :
    t.hasColumn name = true ↔ name ∈ t.columns := by
  simp [hasColumn]

@[simp] theorem isSome_columnIndex? (t : Table α) (name : String) :
    (t.columnIndex? name).isSome = t.hasColumn name := by
  cases h : t.columnIndex? name with
  | none => simpa [hasColumn] using List.idxOf?_eq_none_iff.mp h
  | some p =>
    obtain ⟨hp, rfl, -⟩ := List.idxOf?_eq_some_iff.mp h
    simp [hasColumn]

theorem columnIndex?_lt {t : Table α} {name : String} {p : Nat} (h : t.columnIndex? name = some p) :
    p < t.columnCount :=
  (List.idxOf?_eq_some_iff.mp h).1

theorem columns_getElem?_columnIndex? {t : Table α} {name : String} {p : Nat}
    (h : t.columnIndex? name = some p) : t.columns[p]? = some name := by
  obtain ⟨hp, he, -⟩ := List.idxOf?_eq_some_iff.mp h
  rw [List.getElem?_eq_getElem hp, he]

/-- A column that is there stands where its name is first met. -/
theorem columnIndex?_of_mem {t : Table α} {name : String} (h : name ∈ t.columns) :
    t.columnIndex? name = some (t.columns.idxOf name) := by
  cases hp : t.columnIndex? name with
  | none => exact absurd h (List.idxOf?_eq_none_iff.mp hp)
  | some p => rw [idxOf_of_idxOf? hp]

/-! ## Building -/

theorem wellFormed_new {columns : List String} {t : Table α} (h : new columns = .ok t) :
    t.WellFormed := by
  simp only [new] at h
  split at h
  · cases h
  · rename_i hr
    cases h
    exact ⟨firstRepeat?_eq_none_iff.mp hr, by simp⟩

/-- Columns and rows make a table exactly when the table they make is well formed. -/
theorem ofRows_eq_ok_iff {columns : List String} {rows : List (Row α)} {t : Table α} :
    ofRows columns rows = .ok t ↔ t = ⟨columns, rows⟩ ∧ t.WellFormed := by
  simp only [ofRows]
  cases hr : firstRepeat? columns with
  | some name =>
    simp only [reduceCtorEq, false_iff]
    rintro ⟨rfl, hw⟩
    rw [firstRepeat?_eq_none_iff.mpr hw.nodup] at hr
    cases hr
  | none =>
    cases hm : firstMisfit? columns.length 0 rows with
    | some misfit =>
      simp only [reduceCtorEq, false_iff]
      rintro ⟨rfl, hw⟩
      rw [firstMisfit?_eq_none_iff.mpr hw.width] at hm
      cases hm
    | none =>
      simp only [Except.ok.injEq]
      constructor
      · rintro rfl
        exact ⟨rfl, firstRepeat?_eq_none_iff.mp hr, firstMisfit?_eq_none_iff.mp hm⟩
      · rintro ⟨rfl, -⟩
        rfl

theorem wellFormed_pushRow {t u : Table α} {row : Row α} (ht : t.WellFormed)
    (h : t.pushRow row = .ok u) : u.WellFormed := by
  simp only [pushRow] at h
  split at h
  · rename_i hw
    cases h
    refine ⟨ht.nodup, fun r hr => ?_⟩
    rcases List.mem_append.mp hr with hr | hr
    · exact ht.width r hr
    · rw [List.mem_singleton.mp hr]
      exact hw
  · cases h

/-! ## Changing -/

theorem wellFormed_withRows {t : Table α} {rows : List (Row α)} (ht : t.WellFormed)
    (h : ∀ row ∈ rows, row ∈ t.rows) : (t.withRows rows).WellFormed :=
  ⟨ht.nodup, fun row hr => ht.width row (h row hr)⟩

theorem wellFormed_selectRows {t : Table α} (ht : t.WellFormed) (positions : List Nat) :
    (t.selectRows positions).WellFormed := by
  refine ⟨ht.nodup, fun row hr => ht.width row ?_⟩
  obtain ⟨i, -, hi⟩ := List.mem_filterMap.mp hr
  exact List.mem_of_getElem? hi

private theorem length_of_mem_zipWith {f : Row α → Cell α → Row α} {width width' : Nat}
    (hf : ∀ row value, row.length = width → (f row value).length = width') :
    ∀ {rows : List (Row α)} {values : List (Cell α)}, (∀ row ∈ rows, row.length = width) →
      ∀ row ∈ rows.zipWith f values, row.length = width'
  | [], _, _, row, hr => by simp at hr
  | _ :: _, [], _, row, hr => by simp at hr
  | r :: rows, v :: values, h, row, hr => by
    rcases List.mem_cons.mp hr with rfl | hr
    · exact hf r v (h r List.mem_cons_self)
    · exact length_of_mem_zipWith hf (fun r hr => h r (List.mem_cons_of_mem _ hr)) row hr

theorem wellFormed_setColumn {t u : Table α} {name : String} {values : List (Cell α)}
    (ht : t.WellFormed) (h : t.setColumn name values = .ok u) : u.WellFormed := by
  simp only [setColumn] at h
  split at h
  · cases hp : t.columnIndex? name with
    | some p =>
      rw [hp] at h
      cases h
      refine ⟨ht.nodup, length_of_mem_zipWith (fun row value hr => ?_) ht.width⟩
      simpa using hr
    | none =>
      rw [hp] at h
      cases h
      have hn : name ∉ t.columns := List.idxOf?_eq_none_iff.mp hp
      refine ⟨?_, length_of_mem_zipWith (fun row value hr => ?_) ht.width⟩
      · refine List.nodup_append.mpr ⟨ht.nodup, by simp, fun a ha b hb => ?_⟩
        rw [List.mem_singleton.mp hb]
        rintro rfl
        exact hn ha
      · simpa using hr
  · cases h

/-- A column is written in its place, or behind all others if it is new. -/
theorem columns_setColumn {t u : Table α} {name : String} {values : List (Cell α)}
    (h : t.setColumn name values = .ok u) :
    u.columns = if name ∈ t.columns then t.columns else t.columns ++ [name] := by
  simp only [setColumn] at h
  split at h
  · cases hp : t.columnIndex? name with
    | some p =>
      rw [hp] at h
      cases h
      have hn : name ∈ t.columns := by
        rw [← hasColumn_iff, ← isSome_columnIndex?, hp]
        rfl
      simp [hn]
    | none =>
      rw [hp] at h
      cases h
      simp [List.idxOf?_eq_none_iff.mp hp]
  · cases h

/-! ## Records -/

theorem recordMembers_go_eq_ok_iff {records : List Json} {i : Nat} {ms : List (Dictionary Json)} :
    recordMembers.go i records = .ok ms ↔ records.map Json.members? = ms.map some := by
  induction records generalizing i ms with
  | nil => cases ms <;> simp [recordMembers.go]
  | cons record rest ih =>
    rw [recordMembers.go]
    cases hrecord : record.members? with
    | none => cases ms <;> simp [hrecord]
    | some members =>
      have hrest : (recordMembers.go (i + 1) rest).map (members :: ·) = .ok ms ↔
          ∃ others, recordMembers.go (i + 1) rest = .ok others ∧ members :: others = ms := by
        cases recordMembers.go (i + 1) rest <;> simp [Except.map]
      simp only [hrest, ih, List.map_cons, hrecord]
      constructor
      · intro h
        obtain ⟨others, hothers, hms⟩ := h
        rw [← hms, hothers, List.map_cons]
      · intro hms
        cases ms with
        | nil => cases hms
        | cons m others =>
          obtain ⟨hm, hothers⟩ := List.cons.inj hms
          exact ⟨others, hothers, congrArg (· :: others) (Option.some.inj hm)⟩

theorem recordMembers_eq_ok_iff {records : List Json} {ms : List (Dictionary Json)} :
    recordMembers records = .ok ms ↔ records.map Json.members? = ms.map some :=
  recordMembers_go_eq_ok_iff

theorem wellFormed_ofRecords [WireQuantity α] {records : List Json} {t : Table α}
    (h : ofRecords records = .ok t) : t.WellFormed := by
  simp only [ofRecords] at h
  cases hm : recordMembers records with
  | error e => rw [hm] at h; cases h
  | ok members =>
    rw [hm] at h
    simp only [bind, Except.bind] at h
    split at h
    · cases h
    · rename_i rows hr
      cases h
      refine ⟨nodup_eraseDups _, fun row hrow => ?_⟩
      obtain ⟨record, -, hcells⟩ := exists_of_mem_mapM hr hrow
      exact length_of_mapM_eq_ok hcells

end Table
end TableSteps
