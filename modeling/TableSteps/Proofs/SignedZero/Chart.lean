import TableSteps.Chart.Build
import TableSteps.Proofs.Indexing.Column
import TableSteps.Proofs.SignedZero.Aggregation

/-! # Charts and signed zeros

A chart shows cells and numbers as they are and adds numbers up; a zero stays a zero. What it reads
as labels is another matter: the labels of the two zeros differ, and with them the traces of a
colour column, the lines and places of a heatmap and the nodes of a tree. -/

namespace TableSteps

open Quantity (Agree)
open SignedZeroLaws

variable {α : Type} [WireQuantity α] {t u : Table α}

/-! ## Options -/

/-- The options whose columns a chart reads as labels. -/
def ChartShape.labelled : ChartShape → List String
  | .cartesian => ["color"]
  | .heatmap => ["x", "y"]
  | .labelTree => ["path"]
  | .pie | .box | .histogram => []

namespace Options

/-- The columns that an option names. -/
def named (options : Options) (key : String) : List String :=
  match value? options key with
  | some (.str name) => [name]
  | some (.arr items) => items.filterMap Json.str?
  | _ => []

variable {options : Options} {key name : String}

omit [WireQuantity α] in
theorem eq_of_existing {found : String} (h : existing t key name = .ok found) : found = name := by
  unfold existing at h
  split at h
  · exact (Except.ok.inj h).symm
  · cases h

omit [WireQuantity α] in
theorem mem_named_of_optionalColumn (h : optionalColumn options t key = .ok (some name)) :
    name ∈ named options key := by
  unfold optionalColumn at h
  unfold named
  split at h
  · cases h
  · rename_i other hother
    obtain ⟨found, hfound, hname⟩ := map_eq_ok_iff.mp h
    cases hname
    simp [hother, eq_of_existing hfound]
  · cases h

omit [WireQuantity α] in
theorem mem_named_of_column (h : column options t key = .ok name) : name ∈ named options key := by
  unfold column at h
  split at h
  · cases h
  · cases h
  · rename_i hname
    cases h
    exact mem_named_of_optionalColumn hname

omit [WireQuantity α] in
theorem mem_named_of_columns {names : List String} (h : columns options t key = .ok names) :
    ∀ name ∈ names, name ∈ named options key := by
  unfold columns at h
  unfold named
  split at h
  · cases h
  · rename_i other hother
    obtain ⟨found, hfound, rfl⟩ := map_eq_ok_iff.mp h
    simp [hother, eq_of_existing hfound]
  · rename_i first rest hitems
    intro name hname
    obtain ⟨item, hitem, hlisted⟩ := exists_of_mem_mapM h hname
    unfold listedColumn at hlisted
    split at hlisted
    · rw [hitems]
      exact List.mem_filterMap.mpr ⟨_, hitem, congrArg some (eq_of_existing hlisted).symm⟩
    · cases hlisted
  · cases h

theorem existing_eq (h : t.Agree u) : existing t = existing u := by
  funext key name
  rw [existing, existing, Table.hasColumn, Table.hasColumn, h.columns]

theorem optionalColumn_eq (h : t.Agree u) :
    optionalColumn options t key = optionalColumn options u key := by
  unfold optionalColumn
  rw [existing_eq h]

theorem column_eq (h : t.Agree u) : column options t key = column options u key := by
  unfold column
  rw [optionalColumn_eq h]

theorem columns_eq (h : t.Agree u) : columns options t key = columns options u key := by
  have hlisted : listedColumn t key = listedColumn u key := by
    funext item
    unfold listedColumn
    rw [existing_eq h]
  unfold columns
  rw [existing_eq h, hlisted]

end Options

/-- The labels of a column, row by row, where they are the same in both tables. -/
theorem Table.Paired.label_eq (h : t.Agree u) {name : String} (hname : name ∈ u.columns)
    (hlabels : t.labels name = u.labels name) {row row' : Row α} (hrow : Paired t u row row') :
    (cellAt row (u.positionOf name)).label = (cellAt row' (u.positionOf name)).label := by
  have hposition : t.positionOf name = u.positionOf name := by
    rw [positionOf, positionOf, h.columnIndex?_eq]
  rw [labels_eq_map (h.columns ▸ hname), labels_eq_map hname, hposition] at hlabels
  exact hrow.eq_of_map_eq (f := fun row => (cellAt row (u.positionOf name)).label) hlabels

theorem Table.Agree.positionOf_eq (h : t.Agree u) : t.positionOf = u.positionOf := by
  funext name
  rw [positionOf, positionOf, h.columnIndex?_eq]

/-! ## Documents -/

/-- The same layout, with traces that agree. -/
structure Drawing.Agree (d d' : Drawing) : Prop where
  data : List.Forall₂ Json.Agree d.data d'.data
  layout : d.layout = d'.layout

/-- The same kind and layout, with traces that agree. -/
structure Figure.Agree (f f' : Figure) : Prop where
  kind : f.kind = f'.kind
  data : List.Forall₂ Json.Agree f.data f'.data
  layout : f.layout = f'.layout

variable [SignedZeroLaws α]

theorem agree_cellsToJson {cells cells' : List (Cell α)}
    (h : List.Forall₂ Cell.Agree cells cells') :
    (Json.arr (cells.map Cell.toJson)).Agree (.arr (cells'.map Cell.toJson)) :=
  .arr (List.rel_map (fun _ _ hcell => hcell.toJson) h)

theorem agree_numbersToJson {xs ys : List (Option α)}
    (h : List.Forall₂ (Option.Rel Agree) xs ys) : (numbersToJson xs).Agree (numbersToJson ys) :=
  .arr (List.rel_map (fun _ _ hx => WireQuantity.agree_optionToJson hx) h)

/-! ## Whole columns -/

theorem BoxPlot.agree_trace (h : t.Agree u) (x : Option String) (y : String) :
    (trace t x y).Agree (trace u x y) := by
  refine .record (.cons (.refl _) (.cons (.refl _) (.cons (agree_numbersToJson (h.numbers y)) ?_)))
  cases x with
  | none => exact .refl []
  | some x => exact .cons (agree_cellsToJson (h.cells x)) (.refl [])

theorem BoxPlot.agree_build (h : t.Agree u) (options : Options) :
    Alike Drawing.Agree (build t options) (build u options) := by
  unfold build
  rw [Options.columns_eq h, Options.optionalColumn_eq h]
  cases Options.columns options u "y" with
  | error e => exact .error e e
  | ok ys =>
    cases Options.optionalColumn options u "x" with
    | error e => exact .error e e
    | ok x => exact .ok ⟨forall₂_map_map fun y _ => agree_trace h x y, rfl⟩

theorem Histogram.agree_trace (h : t.Agree u) (bins : Option Nat) (x : String) :
    (trace t bins x).Agree (trace u bins x) :=
  .record (.cons (.refl _) (.cons (.refl _) (.cons (agree_numbersToJson (h.numbers x)) (.refl _))))

theorem Histogram.agree_build (h : t.Agree u) (options : Options) :
    Alike Drawing.Agree (build t options) (build u options) := by
  unfold build
  rw [Options.columns_eq h]
  cases Options.columns options u "x" with
  | error e => exact .error e e
  | ok xs =>
    cases bins options with
    | error e => exact .error e e
    | ok bins => exact .ok ⟨forall₂_map_map fun x _ => agree_trace h bins x, rfl⟩

theorem Pie.agree_build (h : t.Agree u) (options : Options) :
    Alike Drawing.Agree (build t options) (build u options) := by
  unfold build
  simp only [Options.column_eq h]
  cases Options.column options u "names" with
  | error e => exact .error e e
  | ok names =>
    cases Options.column options u "values" with
    | error e => exact .error e e
    | ok values =>
      cases hole options with
      | error e => exact .error e e
      | ok hole =>
        refine .ok ⟨.cons (.record (.cons (.refl _) (.cons (.refl _) ?_))) .nil, rfl⟩
        exact .cons (agree_cellsToJson (h.cells names))
          (.cons (agree_numbersToJson (h.numbers values)) (.refl _))

/-! ## Cartesian charts -/

namespace Cartesian

/-- The points agree. -/
def Point.Agree (p p' : Point α) : Prop :=
  p.category.Agree p'.category ∧ Option.Rel Quantity.Agree p.value p'.value

/-- The same name, with points that agree. -/
def Trace.Agree (s s' : Trace α) : Prop :=
  s.name = s'.name ∧ List.Forall₂ Point.Agree s.points s'.points

omit [SignedZeroLaws α] in
theorem agree_points {rows rows' : List (Row α)} (x y : Nat)
    (h : List.Forall₂ (List.Forall₂ Cell.Agree) rows rows') :
    List.Forall₂ Point.Agree (rows.map (point x y)) (rows'.map (point x y)) :=
  List.rel_map
    (fun _ _ hrow => ⟨Cell.agree_cellAt hrow x, (Cell.agree_cellAt hrow y).asNumber⟩) h

omit [SignedZeroLaws α] in
/-- Rows whose labels are the same in pairs are split into the same traces. -/
theorem agree_tracesOf (h : t.Agree u) (x : Nat) {color : Option Nat} (several : Bool)
    (name : String) (y : Nat)
    (hcolor : ∀ c, color = some c → ∀ row row', Table.Paired t u row row' →
      (cellAt row c).label = (cellAt row' c).label) :
    List.Forall₂ Trace.Agree (tracesOf t x color several name y)
      (tracesOf u x color several name y) := by
  cases color with
  | none => exact .cons ⟨rfl, agree_points x y h.rows⟩ .nil
  | some c =>
    have hgroups := Group.forall₂_byKey (hcolor c rfl) h.forall₂_paired
    refine List.rel_map (fun g g' hg => ⟨?_, agree_points x y (hg.2.imp fun _ _ hrow => hrow.2)⟩)
      hgroups
    rw [hg.1]

theorem agree_render (s : Style) {trace trace' : Trace α} (h : trace.Agree trace') :
    (trace.render s).Agree (trace'.render s) := by
  have hcategories : (Json.arr (trace.points.map fun p => p.category.toJson)).Agree
      (.arr (trace'.points.map fun p => p.category.toJson)) :=
    .arr (List.rel_map (fun _ _ hp => hp.1.toJson) h.2)
  have hvalues : (Json.arr (trace.points.map fun p => WireQuantity.optionToJson p.value)).Agree
      (.arr (trace'.points.map fun p => WireQuantity.optionToJson p.value)) :=
    .arr (List.rel_map (fun _ _ hp => WireQuantity.agree_optionToJson hp.2) h.2)
  have hmeasures : (trace.points.map fun _ => Json.str "relative") =
      trace'.points.map fun _ => Json.str "relative" := by
    rw [List.map_const', List.map_const', h.2.length_eq]
  unfold Trace.render
  rw [h.1, hmeasures]
  refine .record (.append (.append (.append (.refl _) ?_) (.refl _)) (.refl _))
  split
  · exact .cons (.refl _) (.cons hvalues (.cons hcategories (.refl [])))
  · exact .cons hcategories (.cons hvalues (.refl []))

theorem agree_build (h : t.Agree u) (kind : ChartKind) (options : Options) :
    Alike (fun d d' => (∀ name ∈ Options.named options "color", t.labels name = u.labels name) →
      d.Agree d') (build kind t options) (build kind u options) := by
  unfold build
  simp only [Options.column_eq h, Options.columns_eq h, Options.optionalColumn_eq h,
    h.positionOf_eq]
  cases Options.column options u "x" with
  | error e => exact .error e e
  | ok x =>
    cases Options.columns options u "y" with
    | error e => exact .error e e
    | ok ys =>
      cases hcolor : Options.optionalColumn options u "color" with
      | error e => exact .error e e
      | ok color =>
        refine .ok fun hlabels => ⟨List.rel_map (fun _ _ htrace => agree_render _ htrace) ?_, rfl⟩
        refine List.rel_flatMap (R := Eq) (List.forall₂_same.mpr fun _ _ => rfl) ?_
        rintro y _ rfl
        refine agree_tracesOf h _ _ _ _ fun c hc row row' hrow => ?_
        obtain ⟨name, rfl, rfl⟩ := Option.map_eq_some_iff.mp hc
        exact hrow.label_eq h (Options.optionalColumn_mem hcolor)
          (hlabels name (Options.mem_named_of_optionalColumn hcolor))

end Cartesian

/-! ## Heatmaps -/

namespace Heatmap

/-- Matrices of one shape, with numbers that agree. -/
abbrev MatrixAgree (m m' : Matrix α) : Prop :=
  List.Forall₂ (List.Forall₂ (Option.Rel Agree)) m m'

/-- The same labels, with numbers that agree. -/
def Reading.Agree (r r' : Reading α) : Prop :=
  r.x = r'.x ∧ r.y = r'.y ∧ Option.Rel Quantity.Agree r.value r'.value

theorem agree_addAt {m m' : Matrix α} (h : MatrixAgree m m') (line place : Nat) {n n' : α}
    (hn : Quantity.Agree n n') : MatrixAgree (addAt m line place n) (addAt m' line place n') := by
  refine forall₂_modify (fun cells cells' hcells => ?_) h line
  refine forall₂_modify (fun c c' hc => .some ?_) hcells place
  cases hc with
  | none => exact agree_add (.refl _) hn
  | some hc => exact agree_add hc hn

theorem agree_addReading (xs ys : List String) {m m' : Matrix α} (h : MatrixAgree m m')
    {r r' : Reading α} (hr : r.Agree r') :
    MatrixAgree (addReading xs ys m r) (addReading xs ys m' r') := by
  obtain ⟨hx, hy, hvalue⟩ := hr
  unfold addReading
  rw [hx, hy]
  generalize r.value = v, r'.value = v' at hvalue
  cases hvalue with
  | none => exact h
  | some hn => exact agree_addAt h _ _ hn

theorem agree_pivot (xs ys : List String) {rs rs' : List (Reading α)}
    (h : List.Forall₂ Reading.Agree rs rs') : MatrixAgree (pivot xs ys rs) (pivot xs ys rs') := by
  refine List.rel_foldl (P := MatrixAgree) (R := Reading.Agree)
    (fun _ _ hm _ _ hr => agree_addReading xs ys hm hr) ?_ h
  exact List.forall₂_same.mpr fun cells _ => List.forall₂_same.mpr fun c _ => by
    cases c with
    | none => exact .none
    | some x => exact .some (.refl x)

/-- The labels of both axes decide the lines and places; they have to be the same. -/
theorem agree_matrix (h : t.Agree u) {x y : String} (hx : x ∈ u.columns) (hy : y ∈ u.columns)
    (hxs : t.labels x = u.labels x) (hys : t.labels y = u.labels y) (z : String) :
    MatrixAgree (matrix t x y z) (matrix u x y z) := by
  unfold matrix Table.categories
  rw [hxs, hys, h.positionOf_eq]
  refine agree_pivot _ _ (List.rel_map (fun row row' hrow => ?_) h.forall₂_paired)
  exact ⟨hrow.label_eq h hx hxs, hrow.label_eq h hy hys, (Cell.agree_cellAt hrow.2 _).asNumber⟩

theorem agree_build (h : t.Agree u) (options : Options) :
    Alike (fun d d' => (∀ key ∈ ["x", "y"], ∀ name ∈ Options.named options key,
      t.labels name = u.labels name) → d.Agree d') (build t options) (build u options) := by
  unfold build
  simp only [Options.column_eq h]
  cases hx : Options.column options u "x" with
  | error e => exact .error e e
  | ok x =>
    cases hy : Options.column options u "y" with
    | error e => exact .error e e
    | ok y =>
      cases Options.column options u "z" with
      | error e => exact .error e e
      | ok z =>
        refine .ok fun hlabels => ⟨.cons (.record ?_) .nil, rfl⟩
        have hxs := hlabels "x" (by simp) x (Options.mem_named_of_column hx)
        have hys := hlabels "y" (by simp) y (Options.mem_named_of_column hy)
        have hmatrix := agree_matrix h (Options.column_mem hx) (Options.column_mem hy) hxs hys z
        unfold Table.categories
        rw [hxs, hys]
        refine .cons (.refl _) (.cons (.refl _) (.cons (.refl _) (.cons (.refl _) ?_)))
        refine .cons (.arr (List.rel_map (fun _ _ hcells => ?_) hmatrix)) (.refl [])
        exact agree_numbersToJson hcells

end Heatmap

/-! ## Trees of labels -/

namespace LabelTree

/-- The same node, with values that agree. -/
structure Node.Agree (n n' : Node α) : Prop where
  id : n.id = n'.id
  label : n.label = n'.label
  parent : n.parent = n'.parent
  value : Quantity.Agree n.value n'.value

theorem agree_add {n n' : Node α} (hn : n.Agree n') {nodes nodes' : List (Node α)}
    (h : List.Forall₂ Node.Agree nodes nodes') :
    List.Forall₂ Node.Agree (add n nodes) (add n' nodes') := by
  induction h with
  | nil => exact .cons hn .nil
  | cons hfirst hrest ih =>
    unfold add
    rw [hfirst.id, hn.id]
    split
    · have hsum := SignedZeroLaws.agree_add hfirst.value hn.value
      exact .cons ⟨rfl, hfirst.label, hfirst.parent, hsum⟩ hrest
    · exact .cons hfirst ih

theorem agree_addPath {amount amount' : α} (hamount : Quantity.Agree amount amount')
    (labels : List String) :
    ∀ (parent : String) {nodes nodes' : List (Node α)}, List.Forall₂ Node.Agree nodes nodes' →
      List.Forall₂ Node.Agree (addPath amount parent labels nodes)
        (addPath amount' parent labels nodes') := by
  induction labels with
  | nil => exact fun _ _ _ h => h
  | cons label rest ih =>
    intro parent nodes nodes' h
    refine ih _ (agree_add ?_ h)
    exact ⟨rfl, rfl, rfl, hamount⟩

theorem agree_nodes (h : t.Agree u) {path : List Nat} (values : Option Nat)
    (hpath : ∀ row row', Table.Paired t u row row' → rowPath path row = rowPath path row') :
    List.Forall₂ Node.Agree (nodes t path values) (nodes u path values) := by
  refine List.rel_foldl (fun nodes nodes' hnodes row row' hrow => ?_) .nil h.forall₂_paired
  rw [hpath row row' hrow]
  refine agree_addPath ?_ _ "" hnodes
  cases values with
  | none => exact .refl _
  | some p =>
    have hnumber := (Cell.agree_cellAt hrow.2 p).asNumber
    unfold amount
    dsimp only
    generalize (cellAt row p).asNumber = x?, (cellAt row' p).asNumber = y? at hnumber
    cases hnumber with
    | none => exact .refl _
    | some hxy => exact hxy

theorem agree_render (kind : ChartKind) (values : Option String) {nodes nodes' : List (Node α)}
    (h : List.Forall₂ Node.Agree nodes nodes') :
    (render kind values nodes).Agree (render kind values nodes') := by
  have hsame {f : Node α → String} (hf : ∀ n n' : Node α, n.Agree n' → f n = f n') :
      nodes.map f = nodes'.map f :=
    map_eq_map_iff_forall₂.mpr (h.imp hf)
  unfold render
  rw [hsame fun _ _ hn => hn.id, hsame fun _ _ hn => hn.label, hsame fun _ _ hn => hn.parent]
  have hvalues : (Json.arr (nodes.map fun n => WireQuantity.toJson n.value)).Agree
      (.arr (nodes'.map fun n => WireQuantity.toJson n.value)) :=
    .arr (List.rel_map (fun _ _ hn => agree_toJson hn.value) h)
  refine .record (.cons (.refl _) (.cons (.refl _) (.cons (.refl _) (.cons (.refl _) ?_))))
  exact .cons (.refl _) (.cons hvalues (.refl _))

theorem agree_build (h : t.Agree u) (kind : ChartKind) (options : Options) :
    Alike (fun d d' => (∀ name ∈ Options.named options "path", t.labels name = u.labels name) →
      d.Agree d') (build kind t options) (build kind u options) := by
  unfold build
  simp only [Options.columns_eq h, Options.optionalColumn_eq h, h.positionOf_eq]
  cases hpath : Options.columns options u "path" with
  | error e => exact .error e e
  | ok path =>
    cases Options.optionalColumn options u "values" with
    | error e => exact .error e e
    | ok values =>
      refine .ok fun hlabels => ⟨.cons (agree_render kind values (agree_nodes h _ ?_)) .nil, rfl⟩
      intro row row' hrow
      unfold rowPath
      rw [List.map_map, List.map_map]
      refine List.map_congr_left fun name hname => congrArg nodeLabel ?_
      exact hrow.label_eq h (Options.columns_mem hpath name hname)
        (hlabels name (Options.mem_named_of_columns hpath name hname))

end LabelTree

/-! ## All charts -/

namespace ChartSpec

/-- The chart reads a column as labels whose labels differ between the two tables. -/
def TellsApart (config : ChartSpec) (t u : Table α) : Prop :=
  ∃ kind, config.kind = .ok kind ∧ ∃ key ∈ kind.shape.labelled,
    ∃ name ∈ Options.named config.options key, t.labels name ≠ u.labels name

theorem agree_parts (h : t.Agree u) (kind : ChartKind) (options : Options) :
    Alike (fun d d' => (∀ key ∈ kind.shape.labelled, ∀ name ∈ Options.named options key,
      t.labels name = u.labels name) → d.Agree d') (parts kind t options)
      (parts kind u options) := by
  unfold parts
  cases kind.shape with
  | cartesian =>
    exact (Cartesian.agree_build h kind options).mono fun _ _ hd hlabels =>
      hd (hlabels "color" (List.mem_singleton_self _))
  | labelTree =>
    exact (LabelTree.agree_build h kind options).mono fun _ _ hd hlabels =>
      hd (hlabels "path" (List.mem_singleton_self _))
  | heatmap => exact Heatmap.agree_build h options
  | pie => exact (Pie.agree_build h options).mono fun _ _ hd _ => hd
  | box => exact (BoxPlot.agree_build h options).mono fun _ _ hd _ => hd
  | histogram => exact (Histogram.agree_build h options).mono fun _ _ hd _ => hd

/-- A chart is built over both of two tables that agree, or over neither; the charts agree unless
the labels that they are made of tell the tables apart. -/
theorem agree_build (config : ChartSpec) (h : t.Agree u) :
    Alike (fun f f' => config.TellsApart t u ∨ f.Agree f') (config.build t) (config.build u) := by
  unfold build
  cases hkind : config.kind with
  | error e => exact .error e e
  | ok kind =>
    refine (agree_parts h kind config.options).mapError.bind fun d d' hd => .ok ?_
    refine Classical.or_iff_not_imp_left.mpr fun htells => ?_
    have hdrawing : d.Agree d' := hd fun key hkey name hname => Classical.byContradiction fun hne =>
      htells ⟨kind, hkind, key, hkey, name, hname, hne⟩
    exact ⟨rfl, hdrawing.data, by rw [hdrawing.layout]⟩

end ChartSpec
end TableSteps
