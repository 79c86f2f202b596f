import Mathlib.Logic.Relation
import TableSteps.Binary64.Quantity
import TableSteps.Proofs.Chart.Columns
import TableSteps.Proofs.Chart.LabelPaths

/-! # The nodes of a label tree are a forest

A document lists the nodes of a label tree by their ids and names the parent of each by its id. The
ids are texts that labels were joined to, so a path may lead to an id that another path has set up
below another parent. Such a node keeps its place and its parent; what is met later adds to its
amount alone. So every parent is listed before its children, whatever the labels are. -/

namespace TableSteps.LabelTree

/-! ## Forests by ids and parents -/

/-- Each id is new where it is listed, and its parent is listed by then or is the empty text. -/
inductive Grown : List (String × String) → Prop where
  | nil : Grown []
  | node {links : List (String × String)} {id parent : String} :
    Grown links → id ≠ "" → id ∉ links.map Prod.fst →
    (parent = "" ∨ parent ∈ links.map Prod.fst) → Grown (links ++ [(id, parent)])

namespace Grown

variable {links : List (String × String)}

theorem nodup_ids (h : Grown links) : (links.map Prod.fst).Nodup := by
  induction h with
  | nil => exact .nil
  | node _ _ hnew _ ih =>
    rw [List.map_append, List.map_singleton, ← List.concat_eq_append]
    exact ih.concat hnew

theorem id_ne_empty (h : Grown links) : ∀ id ∈ links.map Prod.fst, id ≠ "" := by
  induction h with
  | nil => simp
  | node _ hne _ _ ih =>
    rw [List.map_append, List.map_singleton]
    exact List.forall_mem_append.mpr ⟨ih, List.forall_mem_singleton.mpr hne⟩

theorem parent_before (h : Grown links) {i : Nat} {id parent : String}
    (hi : links[i]? = some (id, parent)) :
    parent = "" ∨ ∃ j < i, (links.map Prod.fst)[j]? = some parent := by
  induction h with
  | nil => simp at hi
  | @node links newId newParent _ _ _ hparent ih =>
    have hkept {j : Nat} (hj : (links.map Prod.fst)[j]? = some parent) :
        ((links ++ [(newId, newParent)]).map Prod.fst)[j]? = some parent := by
      obtain ⟨hlt, -⟩ := List.getElem?_eq_some_iff.mp hj
      rw [List.map_append, List.getElem?_append_left hlt, hj]
    by_cases hold : i < links.length
    · rw [List.getElem?_append_left hold] at hi
      exact (ih hi).imp_right fun ⟨j, hj, hat⟩ => ⟨j, hj, hkept hat⟩
    · rw [List.getElem?_append_right (Nat.le_of_not_lt hold)] at hi
      cases List.mem_singleton.mp (List.mem_of_getElem? hi)
      refine hparent.imp_right fun hmem => ?_
      obtain ⟨j, hj⟩ := List.mem_iff_getElem?.mp hmem
      have hlt : j < links.length := by simpa using (List.getElem?_eq_some_iff.mp hj).1
      exact ⟨j, by omega, hkept hj⟩

end Grown

/-- The first id stands beside the second as that of its parent. -/
def ChildOf (ids parents : List String) (child parent : String) : Prop :=
  ∃ i : Nat, ids[i]? = some child ∧ parents[i]? = some parent

/-- Nodes listed by ids, labels, parents and values: the ids are distinct and not empty, and each
parent is the empty text or an id listed before. So no way from node to parent leads back. -/
structure IsForest (ids labels parents : List String) (values : List Json) : Prop where
  labels_length : labels.length = ids.length
  parents_length : parents.length = ids.length
  values_length : values.length = ids.length
  distinct : ids.Nodup
  named : ∀ id ∈ ids, id ≠ ""
  parent_before : ∀ (i : Nat) (parent : String), parents[i]? = some parent →
    parent = "" ∨ ∃ j < i, ids[j]? = some parent
  acyclic : ∀ id, ¬ Relation.TransGen (ChildOf ids parents) id id

/-- On every way from node to parent the places in the list go down, and the empty text, which is no
id, ends it. -/
theorem not_transGen_childOf {ids parents : List String} (hdistinct : ids.Nodup)
    (hnamed : ∀ id ∈ ids, id ≠ "")
    (hbefore : ∀ (i : Nat) (parent : String), parents[i]? = some parent →
      parent = "" ∨ ∃ j < i, ids[j]? = some parent) (id : String) :
    ¬ Relation.TransGen (ChildOf ids parents) id id := by
  have hstep {child parent : String} (h : ChildOf ids parents child parent) :
      child ∈ ids ∧ (parent = "" ∨ ids.idxOf parent < ids.idxOf child) := by
    obtain ⟨i, hchild, hparent⟩ := h
    refine ⟨List.mem_of_getElem? hchild, (hbefore i parent hparent).imp_right ?_⟩
    rintro ⟨j, hj, hat⟩
    obtain ⟨hi, rfl⟩ := List.getElem?_eq_some_iff.mp hchild
    obtain ⟨hj', rfl⟩ := List.getElem?_eq_some_iff.mp hat
    rwa [hdistinct.idxOf_getElem, hdistinct.idxOf_getElem]
  have hdown {other : String} (h : Relation.TransGen (ChildOf ids parents) id other) :
      id ∈ ids ∧ (other = "" ∨ ids.idxOf other < ids.idxOf id) := by
    induction h with
    | single h => exact hstep h
    | tail _ h ih =>
      obtain ⟨hmem, hlower⟩ := hstep h
      obtain ⟨hid, hends | hlt⟩ := ih
      · exact absurd hends (hnamed _ hmem)
      · exact ⟨hid, hlower.imp_right fun hlt' => Nat.lt_trans hlt' hlt⟩
  intro hcycle
  obtain ⟨hid, hends | hlt⟩ := hdown hcycle
  · exact hnamed _ hid hends
  · exact Nat.lt_irrefl _ hlt

/-! ## The nodes of a table -/

section Nodes

variable {α : Type} [Quantity α]

/-- The id of every node with that of its parent. -/
def links (nodes : List (Node α)) : List (String × String) :=
  nodes.map fun node => (node.id, node.parent)

omit [Quantity α] in
@[simp] theorem map_fst_links (nodes : List (Node α)) :
    (links nodes).map Prod.fst = nodes.map Node.id := by
  simp [links, Function.comp_def]

/-- An id that is there keeps its parent; a new one is listed behind all others. -/
theorem links_add (node : Node α) (nodes : List (Node α)) :
    links (add node nodes) =
      if node.id ∈ nodes.map Node.id then links nodes
      else links nodes ++ [(node.id, node.parent)] := by
  induction nodes with
  | nil => rfl
  | cons first rest ih =>
    by_cases h : first.id = node.id
    · simp [add, links, h]
    · have h' : ¬ node.id = first.id := fun he => h he.symm
      rw [add, if_neg h]
      simp only [links, List.map_cons, List.mem_cons, h', false_or] at ih ⊢
      rw [ih]
      split <;> rfl

/-- Adding to a node below one that is listed, or at the root, leaves the list a forest. -/
theorem grown_add {node : Node α} {nodes : List (Node α)} (h : Grown (links nodes))
    (hid : node.id ≠ "") (hparent : node.parent = "" ∨ node.parent ∈ nodes.map Node.id) :
    Grown (links (add node nodes)) := by
  rw [links_add]
  split
  · exact h
  · rename_i hnew
    rw [← map_fst_links] at hnew hparent
    exact .node h hid hnew hparent

theorem childId_ne_empty (parent : String) {label : String} (h : label ≠ "") :
    childId parent label ≠ "" := by
  unfold childId
  split
  · exact h
  · simp

/-- Along a path every node is added below the one that was added before it. -/
theorem grown_addPath {amount : α} {labels : List String} (hlabels : ∀ label ∈ labels, label ≠ "") :
    ∀ {parent : String} {nodes : List (Node α)}, Grown (links nodes) →
      (parent = "" ∨ parent ∈ nodes.map Node.id) →
      Grown (links (addPath amount parent labels nodes)) := by
  induction labels with
  | nil => exact fun h _ => h
  | cons label rest ih =>
    intro parent nodes h hparent
    obtain ⟨hlabel, hrest⟩ := List.forall_mem_cons.mp hlabels
    refine ih hrest (grown_add h (childId_ne_empty parent hlabel) hparent) (.inr ?_)
    rw [ids_add]
    split
    · assumption
    · exact List.mem_append_right _ (List.mem_singleton_self _)

theorem grown_nodes (t : Table α) (path : List Nat) (values : Option Nat) :
    Grown (links (nodes t path values)) := by
  unfold nodes
  generalize hstart : ([] : List (Node α)) = start
  have h : Grown (links start) := hstart ▸ .nil
  clear hstart
  induction t.rows generalizing start with
  | nil => exact h
  | cons row rest ih =>
    refine ih _ (grown_addPath (fun label hlabel => ?_) h (.inl rfl))
    obtain ⟨p, -, rfl⟩ := List.mem_map.mp hlabel
    exact nodeLabel_ne_empty _

omit [Quantity α] in
theorem isForest_of_grown {nodes : List (Node α)} (h : Grown (links nodes)) (render : α → Json) :
    IsForest (nodes.map Node.id) (nodes.map Node.label) (nodes.map Node.parent)
      (nodes.map fun node => render node.value) := by
  have hdistinct : (nodes.map Node.id).Nodup := map_fst_links nodes ▸ h.nodup_ids
  have hnamed : ∀ id ∈ nodes.map Node.id, id ≠ "" := map_fst_links nodes ▸ h.id_ne_empty
  have hbefore (i : Nat) (parent : String) (hi : (nodes.map Node.parent)[i]? = some parent) :
      parent = "" ∨ ∃ j < i, (nodes.map Node.id)[j]? = some parent := by
    rw [List.getElem?_map] at hi
    obtain ⟨node, hnode, rfl⟩ := Option.map_eq_some_iff.mp hi
    have hlink : (links nodes)[i]? = some (node.id, node.parent) := by
      rw [links, List.getElem?_map, hnode, Option.map_some]
    rw [← map_fst_links]
    exact h.parent_before hlink
  exact
    { labels_length := by rw [List.length_map, List.length_map]
      parents_length := by rw [List.length_map, List.length_map]
      values_length := by rw [List.length_map, List.length_map]
      distinct := hdistinct
      named := hnamed
      parent_before := hbefore
      acyclic := not_transGen_childOf hdistinct hnamed hbefore }

end Nodes

/-! ## The chart -/

variable {α : Type} [WireQuantity α] {t : Table α} {options : Options} {path : List String}
  {values : Option String}

theorem member?_ids_render (kind : ChartKind) (values : Option String) (nodes : List (Node α)) :
    (render kind values nodes).member? "ids" = some (.strings (nodes.map Node.id)) := by
  rw [render, Json.member?_record]
  simp [List.lookup_cons]

theorem member?_parents_render (kind : ChartKind) (values : Option String)
    (nodes : List (Node α)) :
    (render kind values nodes).member? "parents" = some (.strings (nodes.map Node.parent)) := by
  rw [render, Json.member?_record]
  simp [List.lookup_cons]

/-- A sunburst or a treemap over columns that are there lists a forest, whatever its labels are. -/
theorem build_lists_forest (kind : ChartKind)
    (hpath : Options.columns options t "path" = .ok path)
    (hvalues : Options.optionalColumn options t "values" = .ok values) :
    ∃ trace ids labels parents amounts, build kind t options = .ok ⟨[trace], .empty⟩ ∧
      trace.member? "ids" = some (.strings ids) ∧
      trace.member? "labels" = some (.strings labels) ∧
      trace.member? "parents" = some (.strings parents) ∧
      trace.member? "values" = some (.arr amounts) ∧
      IsForest ids labels parents amounts := by
  have hbuild : build kind t options = .ok
      ⟨[render kind values (nodes t (path.map t.positionOf) (values.map t.positionOf))],
        .empty⟩ := by
    rw [build, hpath, ok_bind, hvalues]
    rfl
  have hforest := isForest_of_grown
    (grown_nodes t (path.map t.positionOf) (values.map t.positionOf)) WireQuantity.toJson
  refine ⟨_, _, _, _, _, hbuild, member?_ids_render .., ?_, member?_parents_render .., ?_, hforest⟩
  all_goals
    rw [render, Json.member?_record]
    simp [List.lookup_cons]

/-- Labels with slashes bring two paths to one id below different parents; one label is blank. -/
theorem build_lists_forest_slashes :
    let t : Table Float :=
      ⟨["p", "q", "r"],
        [[.text "a", .text "b/c", .text "x"], [.text "a/b", .text "c", .text "x"],
          [.empty, .text "a", .number 1]]⟩
    let options : Options := .ofList [("path", .strings ["p", "q", "r"])]
    ∃ trace ids labels parents amounts, build .sunburst t options = .ok ⟨[trace], .empty⟩ ∧
      trace.member? "ids" = some (.strings ids) ∧
      trace.member? "labels" = some (.strings labels) ∧
      trace.member? "parents" = some (.strings parents) ∧
      trace.member? "values" = some (.arr amounts) ∧
      IsForest ids labels parents amounts ∧
      ids = ["a", "a/b/c", "a/b/c/x", "a/b", "(blank)", "(blank)/a", "(blank)/a/1"] ∧
      parents = ["", "a", "a/b/c", "", "", "(blank)", "(blank)/a"] := by
  intro t options
  have hpath : Options.columns options t "path" = .ok ["p", "q", "r"] := rfl
  have hvalues : Options.optionalColumn options t "values" = .ok none := rfl
  obtain ⟨trace, ids, labels, parents, amounts, hbuild, hids, hlabels, hparents, hamounts,
    hforest⟩ := build_lists_forest .sunburst hpath hvalues
  have hstrings {names names' : List String} (h : Json.strings names = .strings names') :
      names = names' :=
    List.map_injective_iff.mpr (fun _ _ => Json.str.inj) (Json.arr.inj h)
  obtain rfl : trace = render .sunburst none (nodes t [0, 1, 2] none) := by
    cases Except.ok.inj (hbuild.symm.trans rfl)
    rfl
  refine ⟨_, ids, labels, parents, amounts, hbuild, hids, hlabels, hparents, hamounts, hforest,
    ?_, ?_⟩
  · rw [hstrings (Option.some.inj (hids.symm.trans (member?_ids_render ..)))]
    decide +kernel
  · rw [hstrings (Option.some.inj (hparents.symm.trans (member?_parents_render ..)))]
    decide +kernel

end TableSteps.LabelTree
