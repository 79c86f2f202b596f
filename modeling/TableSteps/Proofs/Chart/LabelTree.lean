import Mathlib.Data.List.Perm.Subperm
import TableSteps.Binary64.Quantity
import TableSteps.Proofs.Chart.LabelPaths
import TableSteps.Proofs.Group.Nested
import TableSteps.Proofs.Outcome
import TableSteps.Proofs.Quantity.Exact
import TableSteps.Table.WellFormed

/-! # The nodes of a label tree

Every row visits the beginnings of its path of labels, and what visits one id goes into one node. So
the nodes are the ids that are visited, each with the label and the parent of its first visit and
with the total of all amounts that visited it.

A node for every beginning is more than that: it takes ids that tell the beginnings apart. They do
where no label has a slash. Then a parent has the total of its children, since every row that visits
it goes on to exactly one of them. -/

namespace TableSteps

namespace LabelTree

open Quantity (total zero)

variable {α : Type}

/-! ## Visits -/

/-- What an amount brings to the node at the end of a path. -/
def visit (amount : α) (p : List String) : Node α :=
  ⟨pathId p, p.getLastD "", pathId p.dropLast, amount⟩

@[simp] theorem id_visit (amount : α) (p : List String) : (visit amount p).id = pathId p := rfl

@[simp] theorem value_visit (amount : α) (p : List String) : (visit amount p).value = amount := rfl

variable [Quantity α]

theorem addPath_eq_foldl {amount : α} {labels : List String} :
    ∀ {before : List String} {nodes : List (Node α)}, (∀ label ∈ before, label ≠ "") →
      (∀ label ∈ labels, label ≠ "") →
      addPath amount (pathId before) labels nodes =
        ((beginnings labels).map fun p => visit amount (before ++ p)).foldl
          (fun nodes node => add node nodes) nodes := by
  induction labels with
  | nil => exact fun _ _ => rfl
  | cons label rest ih =>
    intro before nodes hbefore hlabels
    obtain ⟨hlabel, hrest⟩ := List.forall_mem_cons.mp hlabels
    have hlonger : ∀ l ∈ before ++ [label], l ≠ "" := by
      simpa [or_imp, forall_and] using ⟨hbefore, hlabel⟩
    have hvisit : visit amount (before ++ [label]) =
        ⟨pathId (before ++ [label]), label, pathId before, amount⟩ := by
      simp [visit]
    rw [addPath, childId_pathId hbefore, ih hlonger hrest, beginnings, List.map_cons,
      List.foldl_cons, hvisit, List.map_map]
    simp [Function.comp_def]

variable {t : Table α} {path : List Nat} {values : Option Nat} {row : Row α} {p q : List String}

theorem length_rowPath : (rowPath path row).length = path.length := List.length_map ..

theorem ne_empty_of_mem_rowPath {label : String} (h : label ∈ rowPath path row) : label ≠ "" := by
  obtain ⟨p, -, rfl⟩ := List.mem_map.mp h
  exact nodeLabel_ne_empty _

/-- The path is a beginning of the path of a row, and not the empty one. -/
def Occurs (t : Table α) (path : List Nat) (p : List String) : Prop :=
  p ≠ [] ∧ ∃ row ∈ t.rows, p <+: rowPath path row

/-- Different beginnings have different ids. -/
def DistinctIds (t : Table α) (path : List Nat) : Prop :=
  ∀ p q, Occurs t path p → Occurs t path q → pathId p = pathId q → p = q

/-- The beginnings of the paths of all rows, as often as they are met. -/
def occurrences (t : Table α) (path : List Nat) : List (List String) :=
  t.rows.flatMap fun row => beginnings (rowPath path row)

/-- What all rows bring to the nodes. -/
def visits (t : Table α) (path : List Nat) (values : Option Nat) : List (Node α) :=
  t.rows.flatMap fun row => (beginnings (rowPath path row)).map (visit (amount values row))

theorem mem_occurrences_iff : p ∈ occurrences t path ↔ Occurs t path p := by
  simp only [occurrences, List.mem_flatMap, mem_beginnings_iff, Occurs]
  constructor
  · rintro ⟨row, hrow, hne, hp⟩
    exact ⟨hne, row, hrow, hp⟩
  · rintro ⟨hne, row, hrow, hp⟩
    exact ⟨row, hrow, hne, hp⟩

theorem ids_visits (values : Option Nat) :
    (visits t path values).map Node.id = (occurrences t path).map pathId := by
  simp [visits, occurrences, List.map_flatMap, Function.comp_def]

theorem Occurs.ne_empty (h : Occurs t path p) : ∀ label ∈ p, label ≠ "" := by
  obtain ⟨-, row, -, hp⟩ := h
  exact fun label hlabel => ne_empty_of_mem_rowPath (hp.subset hlabel)

theorem nodes_eq_foldl :
    nodes t path values =
      (visits t path values).foldl (fun nodes node => add node nodes) [] := by
  rw [nodes, visits, List.foldl_flatMap]
  refine congrArg (fun f => t.rows.foldl f []) (funext fun nodes => funext fun row => ?_)
  change addPath _ (pathId []) _ _ = _
  rw [addPath_eq_foldl (by simp) fun label => ne_empty_of_mem_rowPath]
  rfl

/-! ## One node for each id -/

/-- The node that is left of some visits to one id. -/
def fuse (g : Group String (Node α)) : Node α :=
  match g.members with
  | [] => ⟨g.key, "", "", zero⟩
  | v :: rest => { v with value := total ((v :: rest).map Node.value) }

theorem fuse_of_members {g : Group String (Node α)} {v : Node α} {rest : List (Node α)}
    (h : g.members = v :: rest) :
    fuse g = { v with value := total ((v :: rest).map Node.value) } := by
  rw [fuse, h]

/-- One more visit goes to the node of its id. -/
theorem map_fuse_place {v : Node α} {groups : List (Group String (Node α))}
    (h : ∀ g ∈ groups, ∃ w rest, g.members = w :: rest ∧ w.id = g.key) :
    (Group.place v.id v groups).map fuse = add v (groups.map fuse) := by
  induction groups with
  | nil => rfl
  | cons g others ih =>
    obtain ⟨⟨w, rest, hmembers, hkey⟩, hothers⟩ := List.forall_mem_cons.mp h
    have hid : (fuse g).id = g.key := by rw [fuse_of_members hmembers, hkey]
    rw [Group.place, List.map_cons, add, hid]
    split
    · have hlonger : ({ g with members := g.members ++ [v] } : Group String (Node α)).members =
          w :: (rest ++ [v]) := by
        simp [hmembers]
      rw [List.map_cons, fuse_of_members hlonger, fuse_of_members hmembers]
      simp [total, hkey]
    · rw [List.map_cons, ih hothers]

theorem foldl_add_eq (visits : List (Node α)) :
    visits.foldl (fun nodes node => add node nodes) [] = (Group.byKey Node.id visits).map fuse := by
  obtain ⟨back, rfl⟩ : ∃ back : List (Node α), visits = back.reverse := ⟨visits.reverse, by simp⟩
  induction back with
  | nil => rfl
  | cons v rest ih =>
    rw [List.reverse_cons, List.foldl_append, ih, Group.byKey_concat,
      map_fuse_place fun g hg => Group.exists_members_eq_cons hg]
    rfl

theorem nodes_eq_map_fuse :
    nodes t path values = (Group.byKey Node.id (visits t path values)).map fuse := by
  rw [nodes_eq_foldl, foldl_add_eq]

/-- The nodes are the ids that are visited, each where it is first met. -/
theorem ids_nodes :
    (nodes t path values).map Node.id = ((occurrences t path).map pathId).eraseDups := by
  rw [← ids_visits values, ← Group.keys_byKey, nodes_eq_map_fuse, List.map_map]
  refine List.map_congr_left fun g hg => ?_
  obtain ⟨w, rest, hmembers, hkey⟩ := Group.exists_members_eq_cons hg
  rw [Function.comp_apply, fuse_of_members hmembers, ← hkey]

theorem mem_ids_nodes_iff {id : String} :
    id ∈ (nodes t path values).map Node.id ↔ ∃ p, Occurs t path p ∧ pathId p = id := by
  simp [ids_nodes, List.mem_eraseDups, mem_occurrences_iff]

/-! ## One node for each beginning -/

/-- The rows whose paths begin with these labels. -/
def rowsUnder (t : Table α) (path : List Nat) (p : List String) : List (Row α) :=
  t.rows.filter fun row => p <+: rowPath path row

/-- The amounts of these rows added up. -/
def totalUnder (t : Table α) (path : List Nat) (values : Option Nat) (p : List String) : α :=
  total ((rowsUnder t path p).map (amount values))

theorem rowsUnder_ne_nil (h : Occurs t path p) : rowsUnder t path p ≠ [] := by
  obtain ⟨-, row, hrow, hp⟩ := h
  exact List.ne_nil_of_mem (List.mem_filter.mpr ⟨hrow, decide_eq_true hp⟩)

/-- Of what a row brings, the visit to a path that occurs is found by its id. -/
theorem filter_visits (h : DistinctIds t path) (hp : Occurs t path p) (hrow : row ∈ t.rows)
    (a : α) :
    ((beginnings (rowPath path row)).map (visit a)).filter (fun v => v.id = pathId p) =
      if p <+: rowPath path row then [visit a p] else [] := by
  have hsame : ∀ q ∈ beginnings (rowPath path row), pathId q = pathId p ↔ q = p := by
    intro q hq
    obtain ⟨hne, hbegins⟩ := mem_beginnings_iff.mp hq
    exact ⟨h q p ⟨hne, row, hrow, hbegins⟩ hp, congrArg pathId⟩
  have hfilter : (beginnings (rowPath path row)).filter (fun q => (visit a q).id = pathId p) =
      (beginnings (rowPath path row)).filter fun q => q = p :=
    List.filter_congr fun q hq => decide_eq_decide.mpr (hsame q hq)
  rw [List.filter_map, Function.comp_def, hfilter, List.filter_eq, (nodup_beginnings _).count]
  simp only [mem_beginnings_iff, hp.1, ne_eq, not_false_eq_true, true_and]
  split <;> rfl

theorem flatMap_ite {ρ σ : Type} {c : ρ → Prop} [DecidablePred c] (f : ρ → σ) (rows : List ρ) :
    (rows.flatMap fun row => if c row then [f row] else []) =
      (rows.filter fun row => c row).map f := by
  induction rows with
  | nil => rfl
  | cons row rest ih => by_cases h : c row <;> simp [h, ih]

theorem filter_id_visits (values : Option Nat) (h : DistinctIds t path) (hp : Occurs t path p) :
    (visits t path values).filter (fun v => v.id = pathId p) =
      (rowsUnder t path p).map fun row => visit (amount values row) p := by
  rw [visits, List.filter_flatMap, rowsUnder, ← flatMap_ite]
  exact List.flatMap_congr fun row hrow => filter_visits h hp hrow _

/-- The nodes are the beginnings, each where it is first met, with the amounts of the rows under
it. -/
theorem nodes_eq_map (h : DistinctIds t path) :
    nodes t path values =
      (occurrences t path).eraseDups.map fun p => visit (totalUnder t path values p) p := by
  have hoccurs : ∀ p ∈ (occurrences t path).eraseDups, Occurs t path p := fun p hp =>
    mem_occurrences_iff.mp (List.mem_eraseDups.mp hp)
  have hids : ((occurrences t path).map pathId).eraseDups =
      (occurrences t path).eraseDups.map pathId :=
    Group.eraseDups_map_of_injOn _ _ fun p hp q hq =>
      h p q (mem_occurrences_iff.mp hp) (mem_occurrences_iff.mp hq)
  rw [nodes_eq_map_fuse, Group.byKey_eq_map, ids_visits, hids, List.map_map, List.map_map]
  refine List.map_congr_left fun p hp => ?_
  obtain ⟨row, rest, hrows⟩ := List.exists_cons_of_ne_nil (rowsUnder_ne_nil (hoccurs p hp))
  have hmembers := filter_id_visits values h (hoccurs p hp)
  rw [hrows, List.map_cons] at hmembers
  rw [Function.comp_apply, Function.comp_apply, fuse_of_members hmembers, totalUnder, hrows]
  simp [Function.comp_def, visit]

/-! ## Parents and children -/

/-- The rows under a path are shared out among the paths that are longer by one label. -/
theorem flatMap_rowsUnder_perm {child : List String} (hchild : Occurs t path child)
    (hparent : child.dropLast = p) :
    (((occurrences t path).eraseDups.filter fun c => c.dropLast = p).flatMap
      (rowsUnder t path)).Perm (rowsUnder t path p) := by
  -- The path of every row is long enough to go on, since that of one row is.
  have hlength (row : Row α) : p.length < (rowPath path row).length := by
    obtain ⟨hne, other, -, hbegins⟩ := hchild
    have hle := hbegins.length_le
    have hpos := List.length_pos_iff.mpr hne
    rw [length_rowPath] at hle ⊢
    rw [← hparent, List.length_dropLast]
    omega
  have hiff (row : Row α) (k : List String) := take_length_succ_eq_iff (k := k) (hlength row)
  let longer (row : Row α) : List String := (rowPath path row).take (p.length + 1)
  have hkeys : ((Group.byKey longer (rowsUnder t path p)).map Group.key).Perm
      ((occurrences t path).eraseDups.filter fun c => c.dropLast = p) := by
    refine (List.perm_ext_iff_of_nodup (Group.nodup_keys_byKey _ _)
      ((nodup_eraseDups _).filter _)).mpr fun k => ?_
    simp only [Group.keys_byKey, List.mem_eraseDups, List.mem_map, List.mem_filter,
      mem_occurrences_iff, rowsUnder, decide_eq_true_eq]
    constructor
    · rintro ⟨row, ⟨hrow, hp⟩, hk⟩
      obtain ⟨hne, hdrop, hbegins⟩ := (hiff row k).mp ⟨hp, hk⟩
      exact ⟨⟨hne, row, hrow, hbegins⟩, hdrop⟩
    · rintro ⟨⟨hne, row, hrow, hbegins⟩, hdrop⟩
      obtain ⟨hp, hk⟩ := (hiff row k).mpr ⟨hne, hdrop, hbegins⟩
      exact ⟨row, ⟨hrow, hp⟩, hk⟩
  have hmembers : ∀ g ∈ Group.byKey longer (rowsUnder t path p),
      rowsUnder t path g.key = g.members := by
    intro g hg
    obtain ⟨hoccurs, hdrop⟩ := List.mem_filter.mp (hkeys.mem_iff.mp (List.mem_map_of_mem hg))
    have hne := (mem_occurrences_iff.mp (List.mem_eraseDups.mp hoccurs)).1
    rw [Group.members_byKey hg, rowsUnder, rowsUnder, List.filter_filter]
    refine List.filter_congr fun row _ => ?_
    rw [← Bool.decide_and, decide_eq_decide, and_comm]
    refine Iff.trans ?_ (hiff row g.key).symm
    simp [hne, of_decide_eq_true hdrop]
  refine (hkeys.symm.flatMap_right _).trans ?_
  rw [List.flatMap_map, List.flatMap_congr hmembers]
  exact Group.flatMap_byKey_perm _ _

/-- The ids of beginnings tell which one another one goes on from. -/
theorem parent_eq_id_iff (h : DistinctIds t path) (hp : Occurs t path p) (hq : Occurs t path q) :
    pathId q.dropLast = pathId p ↔ q.dropLast = p := by
  refine ⟨fun hid => ?_, congrArg pathId⟩
  by_cases hnil : q.dropLast = []
  · have hempty : pathId p = "" := by
      rw [← hid, hnil]
      rfl
    exact absurd ((pathId_eq_empty_iff hp.ne_empty).mp hempty) hp.1
  · obtain ⟨-, row, hrow, hbegins⟩ := hq
    exact h _ _ ⟨hnil, row, hrow, (List.dropLast_prefix q).trans hbegins⟩ hp hid

/-- Where sums are exact, a node that has children has their total. -/
theorem value_eq_total (hexact : Quantity.ExactAddition α) (h : DistinctIds t path) {node : Node α}
    (hnode : node ∈ nodes t path values)
    (hinner : ∃ child ∈ nodes t path values, child.parent = node.id) :
    node.value = total
      (((nodes t path values).filter fun child => child.parent = node.id).map Node.value) := by
  rw [nodes_eq_map h] at hnode hinner ⊢
  have hoccurs : ∀ q ∈ (occurrences t path).eraseDups, Occurs t path q := fun q hq =>
    mem_occurrences_iff.mp (List.mem_eraseDups.mp hq)
  obtain ⟨p, hp, rfl⟩ := List.mem_map.mp hnode
  obtain ⟨_, hmem, hparent⟩ := hinner
  obtain ⟨child, hchild, rfl⟩ := List.mem_map.mp hmem
  have hchildren : (occurrences t path).eraseDups.filter (fun q => pathId q.dropLast = pathId p) =
      (occurrences t path).eraseDups.filter fun q => q.dropLast = p :=
    List.filter_congr fun q hq =>
      decide_eq_decide.mpr (parent_eq_id_iff h (hoccurs p hp) (hoccurs q hq))
  have hrows : ∀ q ∈ (occurrences t path).eraseDups.filter fun q => q.dropLast = p,
      (rowsUnder t path q).map (amount values) ≠ [] := fun q hq => by
    simpa using rowsUnder_ne_nil (hoccurs q (List.mem_filter.mp hq).1)
  have hperm := flatMap_rowsUnder_perm (hoccurs child hchild)
    ((parent_eq_id_iff h (hoccurs p hp) (hoccurs child hchild)).mp hparent)
  calc totalUnder t path values p
      = total ((((occurrences t path).eraseDups.filter fun q => q.dropLast = p).flatMap
          (rowsUnder t path)).map (amount values)) :=
        hexact.total_eq_of_perm (hperm.symm.map _)
    _ = total ((((occurrences t path).eraseDups.filter fun q => q.dropLast = p).map
          (totalUnder t path values))) := by
        rw [List.map_flatMap]
        exact hexact.total_flatMap hrows
    _ = _ := by
        rw [List.filter_map, List.map_map, Function.comp_def, ← hchildren]
        rfl

/-- One node for every beginning of the path of a row, under an id of its own: labelled by the last
label, below the node that is shorter by one, and with the amounts of the rows under it. Where sums
are exact, these are the totals of the children. -/
structure OnePerBeginning (t : Table α) (path : List Nat) (values : Option Nat)
    (nodes : List (Node α)) : Prop where
  beginnings : ∃ (ps : List (List String)) (id : List String → String),
    ps.Nodup ∧ (∀ p, p ∈ ps ↔ Occurs t path p) ∧ (ps.map id).Nodup ∧
      nodes = ps.map fun p =>
        ⟨id p, p.getLastD "", if p.dropLast = [] then "" else id p.dropLast,
          totalUnder t path values p⟩
  totals : Quantity.ExactAddition α → ∀ node ∈ nodes, (∃ child ∈ nodes, child.parent = node.id) →
    node.value = total ((nodes.filter fun child => child.parent = node.id).map Node.value)

theorem onePerBeginning_of_distinctIds (h : DistinctIds t path) :
    OnePerBeginning t path values (nodes t path values) := by
  have hoccurs (p : List String) : p ∈ (occurrences t path).eraseDups ↔ Occurs t path p := by
    rw [List.mem_eraseDups, mem_occurrences_iff]
  refine ⟨⟨(occurrences t path).eraseDups, pathId, nodup_eraseDups _, hoccurs, ?_, ?_⟩,
    fun hexact node hnode hinner => value_eq_total hexact h hnode hinner⟩
  · exact (nodup_eraseDups _).map_on fun p hp q hq =>
      h p q ((hoccurs p).mp hp) ((hoccurs q).mp hq)
  · rw [nodes_eq_map h]
    refine List.map_congr_left fun p _ => ?_
    unfold visit
    split
    · rename_i hroot
      rw [hroot]
      rfl
    · rfl

/-- With a node for every beginning there are as many ids as beginnings, so none serves for two. -/
theorem distinctIds_of_onePerBeginning
    (h : OnePerBeginning t path values (nodes t path values)) : DistinctIds t path := by
  obtain ⟨ps, id, -, hps, -, hnodes⟩ := h.beginnings
  have hlength : ((nodes t path values).map Node.id).length = (ps.map pathId).length := by
    rw [hnodes, List.length_map, List.length_map, List.length_map]
  have hsubset : (nodes t path values).map Node.id ⊆ ps.map pathId := by
    intro i hi
    obtain ⟨p, hp, rfl⟩ := mem_ids_nodes_iff.mp hi
    exact List.mem_map_of_mem ((hps p).mpr hp)
  have hnodup : ((nodes t path values).map Node.id).Nodup := by
    rw [ids_nodes]
    exact nodup_eraseDups _
  have hperm := (List.subperm_of_subset hnodup hsubset).perm_of_length_le hlength.ge
  intro p q hp hq hid
  exact List.inj_on_of_nodup_map (hperm.nodup_iff.mp hnodup) ((hps p).mpr hp) ((hps q).mpr hq) hid

theorem distinctIds_of_no_slash
    (h : ∀ row ∈ t.rows, ∀ label ∈ rowPath path row, '/' ∉ label.toList) : DistinctIds t path := by
  have hlabels (p : List String) (hp : Occurs t path p) :
      ∀ label ∈ p, label ≠ "" ∧ '/' ∉ label.toList := by
    intro label hlabel
    refine ⟨hp.ne_empty label hlabel, ?_⟩
    obtain ⟨-, row, hrow, hbegins⟩ := hp
    exact h row hrow label (hbegins.subset hlabel)
  intro p q hp hq hid
  exact pathId_inj (hlabels p hp) (hlabels q hq) hid

end LabelTree

/-! ## The chart -/

namespace LabelTree

variable {α : Type} [WireQuantity α] {t : Table α} {options : Options} {path : List String}
  {values : Option String}

/-- A sunburst or a treemap over columns that are there has distinct ids, those of the beginnings of
the rows' paths of labels. It has one node for every beginning just when these ids are distinct, and
so where no label has a slash. -/
theorem build_one_per_beginning (kind : ChartKind)
    (hpath : Options.columns options t "path" = .ok path)
    (hvalues : Options.optionalColumn options t "values" = .ok values) :
    ∃ nodes : List (Node α), build kind t options = .ok ⟨[render kind values nodes], .empty⟩ ∧
      (nodes.map Node.id).Nodup ∧
      (∀ id, id ∈ nodes.map Node.id ↔
        ∃ p, Occurs t (path.map t.positionOf) p ∧ pathId p = id) ∧
      (OnePerBeginning t (path.map t.positionOf) (values.map t.positionOf) nodes ↔
        DistinctIds t (path.map t.positionOf)) ∧
      ((∀ row ∈ t.rows, ∀ label ∈ rowPath (path.map t.positionOf) row, '/' ∉ label.toList) →
        OnePerBeginning t (path.map t.positionOf) (values.map t.positionOf) nodes) := by
  refine ⟨nodes t (path.map t.positionOf) (values.map t.positionOf), ?_, ?_, ?_, ?_, ?_⟩
  · rw [build, hpath, ok_bind, hvalues, ok_bind]
    rfl
  · rw [ids_nodes]
    exact nodup_eraseDups _
  · exact fun id => mem_ids_nodes_iff
  · exact ⟨distinctIds_of_onePerBeginning, onePerBeginning_of_distinctIds⟩
  · exact fun h => onePerBeginning_of_distinctIds (distinctIds_of_no_slash h)

/-- Cities of two regions, one name among them twice. -/
theorem build_one_per_beginning_sales :
    let t : Table ℚ :=
      ⟨["region", "city", "sales"],
        [[.text "North", .text "Oslo", .number 10], [.text "North", .text "Bergen", .number 5],
          [.text "South", .text "Oslo", .number 7], [.text "North", .text "Oslo", .number 1]]⟩
    let options : Options :=
      .ofList [("path", .strings ["region", "city"]), ("values", .str "sales")]
    ∃ nodes : List (Node ℚ),
      build .sunburst t options = .ok ⟨[render .sunburst (some "sales") nodes], .empty⟩ ∧
        OnePerBeginning t [0, 1] (some 2) nodes ∧
        "North/Oslo" ∈ nodes.map Node.id ∧ "South/Oslo" ∈ nodes.map Node.id := by
  intro t options
  obtain ⟨nodes, hbuild, -, hids, -, hnodes⟩ := build_one_per_beginning .sunburst
    (show Options.columns options t "path" = .ok ["region", "city"] from rfl)
    (show Options.optionalColumn options t "values" = .ok (some "sales") from rfl)
  refine ⟨nodes, hbuild, hnodes (by decide), (hids _).mpr ?_, (hids _).mpr ?_⟩
  · exact ⟨["North", "Oslo"], ⟨by decide, [.text "North", .text "Oslo", .number 10],
      List.mem_cons_self, by decide⟩, by decide⟩
  · exact ⟨["South", "Oslo"], ⟨by decide, [.text "South", .text "Oslo", .number 7],
      List.mem_cons_of_mem _ (List.mem_cons_of_mem _ List.mem_cons_self), by decide⟩, by decide⟩

/-- Two rows without a label in common but for the last; the slashes in their labels bring the
beginnings with two labels to one id, and those with three. -/
theorem slash_merges_beginnings :
    let t : Table Float :=
      ⟨["p", "q", "r"],
        [[.text "a", .text "b/c", .text "x"], [.text "a/b", .text "c", .text "x"]]⟩
    let options : Options := .ofList [("path", .strings ["p", "q", "r"])]
    build .sunburst t options =
        .ok ⟨[render .sunburst none (nodes t [0, 1, 2] none)], .empty⟩ ∧
      (nodes t [0, 1, 2] none).map Node.id = ["a", "a/b/c", "a/b/c/x", "a/b"] ∧
      (nodes t [0, 1, 2] none).map Node.parent = ["", "a", "a/b/c", ""] ∧
      ¬ OnePerBeginning t [0, 1, 2] none (nodes t [0, 1, 2] none) := by
  intro t options
  refine ⟨rfl, rfl, rfl, fun h => ?_⟩
  have hfirst : Occurs t [0, 1, 2] ["a", "b/c"] :=
    ⟨by decide, _, List.mem_cons_self, by decide⟩
  have hsecond : Occurs t [0, 1, 2] ["a/b", "c"] :=
    ⟨by decide, _, List.mem_cons_of_mem _ List.mem_cons_self, by decide⟩
  have hsame := distinctIds_of_onePerBeginning h _ _ hfirst hsecond (by decide)
  exact absurd hsame (by decide)

end LabelTree
end TableSteps
