import TableSteps.Chart.Cartesian
import TableSteps.Proofs.Group.Nested
import TableSteps.Proofs.Indexing.Column

/-! # Charts with two axes read by position

A colour column splits the rows into groups of row numbers, each found by the place of its label,
and the values of a trace are picked by the row numbers of its group. The places come from the
labels of the same column and the row numbers from their positions in it, so the groups have the
places and the columns have the rows. -/

namespace TableSteps

variable {α : Type} [Quantity α] {t : Table α}

namespace Indexed

/-! ## Filling groups -/

section Fill

variable {κ : Type} [DecidableEq κ]

/-- Puts a row number into the group at a place. -/
def fill (groups : List (Group κ Nat)) (x : Nat × Nat) : Indexed (List (Group κ Nat)) := do
  let g ← item groups x.1
  setItem groups x.1 { g with members := g.members ++ [x.2] }

/-- The row numbers of every label, given the labels row by row. -/
def splitLabels (labels : List κ) : Indexed (List (Group κ Nat)) :=
  let (n, places) := assign labels
  places.zipIdx.foldlM fill (n.keys.map fun key => ⟨key, []⟩)

variable {keys : List κ}

theorem fill_eq_ok (hkeys : keys.Nodup) {key : κ} (hkey : key ∈ keys) (r : Nat)
    (held : κ → List Nat) :
    fill (keys.map fun k => ⟨k, held k⟩) (keys.idxOf key, r) =
      .ok (keys.map fun k => ⟨k, if k = key then held k ++ [r] else held k⟩) := by
  have hlt : keys.idxOf key < (keys.map fun k => (⟨k, held k⟩ : Group κ Nat)).length := by
    rw [List.length_map]
    exact List.idxOf_lt_length_of_mem hkey
  have hg : item (keys.map fun k => (⟨k, held k⟩ : Group κ Nat)) (keys.idxOf key) =
      .ok ⟨key, held key⟩ := by
    simp only [item_of_lt hlt, List.getElem_map, List.getElem_idxOf]
  rw [fill, hg, ok_bind, setItem_of_lt hlt]
  refine congrArg Except.ok (List.ext_getElem (by simp) fun j hj hj' => ?_)
  rw [List.getElem_set, List.getElem_map, List.getElem_map]
  -- The keys are distinct: no other key stands at the place of this one.
  by_cases hplace : keys.idxOf key = j
  · subst hplace
    simp
  · have hj : j < keys.length := by simpa using hj'
    have hne : ¬ keys[j] = key := fun h => hplace (h ▸ hkeys.idxOf_getElem j hj)
    simp [hplace, hne]

/-- Each label gets the row numbers that come with it, in order. -/
theorem foldlM_fill_eq_ok (hkeys : keys.Nodup) {labelled : List (κ × Nat)}
    (hlabelled : ∀ x ∈ labelled, x.1 ∈ keys) :
    ∀ held : κ → List Nat,
      (labelled.map fun x => (keys.idxOf x.1, x.2)).foldlM fill (keys.map fun k => ⟨k, held k⟩) =
        .ok (keys.map fun k =>
          ⟨k, held k ++ (labelled.filter fun x => x.1 = k).map Prod.snd⟩) := by
  induction labelled with
  | nil => intro held; simp
  | cons x rest ih =>
    intro held
    obtain ⟨hx, hrest⟩ := List.forall_mem_cons.mp hlabelled
    rw [List.map_cons, List.foldlM_cons, fill_eq_ok hkeys hx, ok_bind, ih hrest]
    refine congrArg Except.ok (List.map_congr_left fun k _ => ?_)
    by_cases hk : k = x.1
    · simp [hk]
    · have hk' : ¬ x.1 = k := fun h => hk h.symm
      simp [hk, hk']

/-- Splitting gives the groups of the labels, by the numbers of their rows. -/
theorem splitLabels_eq_ok (labels : List κ) :
    splitLabels labels =
      .ok ((Group.byKey Prod.fst labels.zipIdx).map fun g => ⟨g.key, g.members.map Prod.snd⟩) := by
  obtain ⟨hkeys, hplaces⟩ := assign_eq labels
  have hlabelled : ∀ x ∈ labels.zipIdx, x.1 ∈ labels.eraseDups := fun x hx =>
    List.mem_eraseDups.mpr (List.fst_mem_of_mem_zipIdx hx)
  have hfilled := foldlM_fill_eq_ok (nodup_eraseDups labels) hlabelled fun _ => []
  simp only [splitLabels, hkeys, hplaces, List.zipIdx_map]
  refine hfilled.trans ?_
  rw [Group.byKey_eq_map, List.map_map, List.zipIdx_map_fst]
  simp

end Fill

/-! ## Traces -/

/-- The row numbers of every label in a column. -/
def splitRows (t : Table α) (name : String) : Indexed (List (Group String Nat)) := do
  let labels ← labels t name
  splitLabels labels

/-- The row numbers of every label in the colour column, if there is one. -/
def splitRows? (t : Table α) : Option String → Indexed (Option (List (Group String Nat)))
  | none => .ok none
  | some c => (splitRows t c).map some

/-- The trace of one label: the values of its rows. -/
def coloredTrace (xs : List (Cell α)) (ys : List (Option α)) (name : String) (rows : List Nat) :
    Indexed (Cartesian.Trace α) := do
  let xs ← pick xs rows
  let ys ← pick ys rows
  pure ⟨name, xs.zipWith Cartesian.Point.mk ys⟩

/-- The traces of one `y` column. -/
def tracesOf (t : Table α) (xs : List (Cell α)) (groups? : Option (List (Group String Nat)))
    (several : Bool) (name : String) : Indexed (List (Cartesian.Trace α)) := do
  let ys ← numbers t name
  match groups? with
  | none => pure [⟨name, xs.zipWith Cartesian.Point.mk ys⟩]
  | some groups =>
    groups.mapM fun g =>
      coloredTrace xs ys (if several then s!"{name} - {g.key}" else g.key) g.members

def traces (t : Table α) (x : String) (ys : List String) (color : Option String) :
    Indexed (List (Cartesian.Trace α)) := do
  let xs ← cells t x
  let groups? ← splitRows? t color
  let traces ← ys.mapM (tracesOf t xs groups? (decide (1 < ys.length)))
  pure traces.flatten

/-- The rows of a table with their numbers, by their labels in the column at a position. -/
def numberedSplit (t : Table α) (p : Nat) : List (Group String (Row α × Nat)) :=
  Group.byKey (fun x => (cellAt x.1 p).label) t.rows.zipIdx

theorem split_eq (t : Table α) (p : Nat) :
    Cartesian.split t p = (numberedSplit t p).map fun g => ⟨g.key, g.members.map Prod.fst⟩ := by
  have hrows := Group.byKey_map (fun row : Row α => (cellAt row p).label) Prod.fst t.rows.zipIdx
  rw [List.zipIdx_map_fst] at hrows
  exact hrows

variable {x y c : String}

theorem splitRows_eq_ok (ht : t.WellFormed) (hc : c ∈ t.columns) :
    splitRows t c =
      .ok ((numberedSplit t (t.positionOf c)).map fun g => ⟨g.key, g.members.map Prod.snd⟩) := by
  rw [splitRows, labels_eq_ok ht, ok_bind, splitLabels_eq_ok]
  refine congrArg Except.ok ?_
  rw [Table.labels_eq_map hc, List.zipIdx_map, Group.byKey_map, List.map_map]
  refine List.map_congr_left fun g _ => ?_
  simp [Function.comp_def]

theorem coloredTrace_eq_ok {rows : List (Row α × Nat)} (hrows : ∀ r ∈ rows, r ∈ t.rows.zipIdx)
    (hx : x ∈ t.columns) (hy : y ∈ t.columns) (name : String) :
    coloredTrace (t.cells x) (t.numbers y) name (rows.map Prod.snd) =
      .ok ⟨name, (rows.map Prod.fst).map (Cartesian.point (t.positionOf x) (t.positionOf y))⟩ := by
  rw [Table.cells_eq_map hx, Table.numbers_eq_map hy, coloredTrace,
    pick_map_of_mem_zipIdx _ hrows, pick_map_of_mem_zipIdx _ hrows]
  simp only [ok_bind, pure_eq_ok, List.zipWith_map, List.zipWith_self, List.map_map]
  rfl

theorem tracesOf_eq_ok (ht : t.WellFormed) (hx : x ∈ t.columns) (hy : y ∈ t.columns)
    (color : Option String) (several : Bool) :
    tracesOf t (t.cells x)
        (color.map fun c =>
          (numberedSplit t (t.positionOf c)).map fun g => ⟨g.key, g.members.map Prod.snd⟩)
        several y =
      .ok (Cartesian.tracesOf t (t.positionOf x) (color.map t.positionOf) several y
        (t.positionOf y)) := by
  rw [tracesOf, numbers_eq_ok ht, ok_bind]
  cases color with
  | none =>
    rw [Table.cells_eq_map hx, Table.numbers_eq_map hy]
    simp only [Option.map_none, List.zipWith_map, List.zipWith_self]
    rfl
  | some c =>
    have htrace : ∀ g ∈ numberedSplit t (t.positionOf c),
        coloredTrace (t.cells x) (t.numbers y)
            (if several then s!"{y} - {g.key}" else g.key) (g.members.map Prod.snd) =
          .ok ⟨if several then s!"{y} - {g.key}" else g.key,
            (g.members.map Prod.fst).map (Cartesian.point (t.positionOf x) (t.positionOf y))⟩ := by
      intro g hg
      refine coloredTrace_eq_ok (fun r hr => ?_) hx hy _
      rw [Group.members_byKey hg] at hr
      exact (List.mem_filter.mp hr).1
    simp only [Option.map_some, Cartesian.tracesOf, split_eq, List.mapM_map, List.map_map]
    exact mapM_eq_ok htrace

theorem traces_eq_ok (ht : t.WellFormed) (hx : x ∈ t.columns) {ys : List String}
    (hys : ∀ y ∈ ys, y ∈ t.columns) {color : Option String}
    (hcolor : ∀ c, color = some c → c ∈ t.columns) :
    traces t x ys color =
      .ok (Cartesian.traces t (t.positionOf x) (ys.map fun y => (y, t.positionOf y))
        (color.map t.positionOf)) := by
  have hgroups : splitRows? t color =
      .ok (color.map fun c =>
        (numberedSplit t (t.positionOf c)).map fun g => ⟨g.key, g.members.map Prod.snd⟩) := by
    cases color with
    | none => rfl
    | some c =>
      rw [splitRows?, splitRows_eq_ok ht (hcolor c rfl)]
      rfl
  rw [traces, cells_eq_ok ht, ok_bind, hgroups, ok_bind,
    mapM_eq_ok fun y hy => tracesOf_eq_ok ht hx (hys y hy) color _]
  simp only [ok_bind, pure_eq_ok, Cartesian.traces, List.length_map, List.flatMap_map]
  rfl

end Indexed

/-! ## The chart -/

variable {α : Type} [WireQuantity α] {t : Table α}

namespace Guarded

def cartesian (kind : ChartKind) (t : Table α) (options : Options) :
    Guarded ChartFault Drawing := do
  let x ← settle (Options.column options t "x")
  let ys ← settle (Options.columns options t "y")
  let color ← settle (Options.optionalColumn options t "color")
  let s := Cartesian.style kind
  let found ← look (Indexed.traces t x ys color)
  settle (.ok ⟨found.map (Cartesian.Trace.render s), Cartesian.layout s x ys color.isSome⟩)

theorem cartesian_eq_settle (ht : t.WellFormed) (kind : ChartKind) (options : Options) :
    cartesian kind t options = settle (Cartesian.build kind t options) := by
  refine settle_bind fun x hx => settle_bind fun ys hys => settle_bind fun color hcolor => ?_
  have hcolor : ∀ c, color = some c → c ∈ t.columns := by
    rintro c rfl
    exact Options.optionalColumn_mem hcolor
  rw [Indexed.traces_eq_ok ht (Options.column_mem hx) (Options.columns_mem hys) hcolor]
  rfl

end Guarded
end TableSteps
