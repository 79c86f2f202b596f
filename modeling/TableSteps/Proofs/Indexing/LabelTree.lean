import TableSteps.Chart.LabelTree
import TableSteps.Proofs.Indexing.Column

/-! # Sunbursts and treemaps read and written by position

A row is read at the positions of the path columns and of the value column. A node that is there
gets a row's amount at the place that its id has; the ids of the nodes are the keys that have a
place. -/

namespace TableSteps

open LabelTree (Node)

namespace Indexed

section Nodes

variable {α : Type} [Quantity α] {t : Table α}

/-- Nodes with a map that has the place of each id. -/
abbrev NodeSet (α : Type) := List (Node α) × Numbering String

/-- Adds an amount to every node on a row's path below a parent. -/
def addPath (amount : α) (row : Row α) : String → List Nat → NodeSet α → Indexed (NodeSet α)
  | _, [], s => .ok s
  | parent, p :: rest, (nodes, n) => do
    let cell ← item row p
    let label := LabelTree.nodeLabel cell.label
    let id := LabelTree.childId parent label
    let s ← changeAt (fun m => { m with value := m.value + amount }) ⟨id, label, parent, amount⟩ id
      nodes n
    addPath amount row id rest s

/-- What a row adds: its number in the value column, or one if there is no value column. -/
def amount (values : Option Nat) (row : Row α) : Indexed α :=
  match values with
  | some p => (item row p).map fun cell => cell.asNumber.getD Quantity.zero
  | none => .ok (Quantity.ofNat 1)

/-- A row's amount on its path. -/
def addRow (path : List Nat) (values : Option Nat) (s : NodeSet α) (row : Row α) :
    Indexed (NodeSet α) := do
  let amount ← amount values row
  addPath amount row "" path s

def nodes (t : Table α) (path : List Nat) (values : Option Nat) : Indexed (List (Node α)) := do
  let (nodes, _) ← t.rows.foldlM (addRow path values) ([], .empty)
  pure nodes

theorem add_eq_changeKeyed (node : Node α) (nodes : List (Node α)) :
    LabelTree.add node nodes =
      changeKeyed Node.id (fun m => { m with value := m.value + node.value }) node node.id
        nodes := by
  induction nodes with
  | nil => rfl
  | cons n rest ih => rw [LabelTree.add, changeKeyed, ih]

/-- On the way the ids of the nodes stay the keys that have a place. -/
theorem addPath_eq_ok {row : Row α} (a : α) {path : List Nat}
    (hpath : ∀ p ∈ path, item row p = .ok (cellAt row p)) :
    ∀ (parent : String) (s : NodeSet α), s.1.map Node.id = s.2.keys →
      ∃ n, addPath a row parent path s =
          .ok (LabelTree.addPath a parent (LabelTree.rowPath path row) s.1, n) ∧
        (LabelTree.addPath a parent (LabelTree.rowPath path row) s.1).map Node.id = n.keys := by
  induction path with
  | nil =>
    intro parent s h
    exact ⟨s.2, rfl, h⟩
  | cons p rest ih =>
    intro parent s h
    obtain ⟨hp, hrest⟩ := List.forall_mem_cons.mp hpath
    let label := LabelTree.nodeLabel (cellAt row p).label
    let node : Node α := ⟨LabelTree.childId parent label, label, parent, a⟩
    have hchange : ∀ m : Node α, ({ m with value := m.value + a } : Node α).id = m.id :=
      fun _ => rfl
    have hnew : node.id = LabelTree.childId parent label := rfl
    obtain ⟨n, hn, hids⟩ := changeAt_eq_ok hchange hnew h
    obtain ⟨n', hn', hids'⟩ := ih hrest node.id (LabelTree.add node s.1, n)
      (by rw [add_eq_changeKeyed]; exact hids)
    refine ⟨n', ?_, hids'⟩
    rw [addPath, hp, ok_bind]
    simp only [label, node] at hn
    simp only [hn, ok_bind]
    rw [← add_eq_changeKeyed node]
    exact hn'

theorem addRow_eq_ok {path : List Nat} {values : Option Nat} {row : Row α}
    (hpath : ∀ p ∈ path, item row p = .ok (cellAt row p))
    (hvalues : ∀ p, values = some p → item row p = .ok (cellAt row p)) {s : NodeSet α}
    (h : s.1.map Node.id = s.2.keys) :
    ∃ n, addRow path values s row =
        .ok (LabelTree.addPath (LabelTree.amount values row) "" (LabelTree.rowPath path row) s.1,
          n) ∧
      (LabelTree.addPath (LabelTree.amount values row) "" (LabelTree.rowPath path row)
        s.1).map Node.id = n.keys := by
  have hamount : amount values row = .ok (LabelTree.amount values row) := by
    cases values with
    | none => rfl
    | some p =>
      rw [amount, hvalues p rfl]
      rfl
  rw [addRow, hamount, ok_bind]
  exact addPath_eq_ok _ hpath "" s h

theorem foldlM_addRow_eq_ok {path : List Nat} {values : Option Nat} {rows : List (Row α)}
    (hpath : ∀ row ∈ rows, ∀ p ∈ path, item row p = .ok (cellAt row p))
    (hvalues : ∀ row ∈ rows, ∀ p, values = some p → item row p = .ok (cellAt row p)) :
    ∀ s : NodeSet α, s.1.map Node.id = s.2.keys →
      ∃ n, rows.foldlM (addRow path values) s =
        .ok (rows.foldl (fun nodes row => LabelTree.addPath (LabelTree.amount values row) ""
          (LabelTree.rowPath path row) nodes) s.1, n) := by
  induction rows with
  | nil => exact fun s _ => ⟨s.2, rfl⟩
  | cons row rest ih =>
    intro s h
    obtain ⟨hrow, hrest⟩ := List.forall_mem_cons.mp hpath
    obtain ⟨hrow', hrest'⟩ := List.forall_mem_cons.mp hvalues
    obtain ⟨n, hn, hids⟩ := addRow_eq_ok hrow hrow' h
    rw [List.foldlM_cons, hn, ok_bind]
    exact ih hrest hrest' (_, n) hids

theorem nodes_eq_ok (ht : t.WellFormed) {path : List Nat} {values : Option Nat}
    (hpath : ∀ p ∈ path, p < t.columnCount) (hvalues : ∀ p, values = some p → p < t.columnCount) :
    nodes t path values = .ok (LabelTree.nodes t path values) := by
  obtain ⟨n, hn⟩ := foldlM_addRow_eq_ok
    (fun row hrow p hp => item_row ht (hpath p hp) hrow)
    (fun row hrow p hp => item_row ht (hvalues p hp) hrow) ([], .empty) rfl
  rw [nodes, hn]
  rfl

end Nodes

end Indexed

/-! ## The chart -/

variable {α : Type} [WireQuantity α] {t : Table α}

namespace Guarded

def labelTree (kind : ChartKind) (t : Table α) (options : Options) :
    Guarded ChartFault Drawing := do
  let path ← settle (Options.columns options t "path")
  let values ← settle (Options.optionalColumn options t "values")
  let found ← look (Indexed.nodes t (path.map t.positionOf) (values.map t.positionOf))
  settle (.ok ⟨[LabelTree.render kind values found], .empty⟩)

theorem labelTree_eq_settle (ht : t.WellFormed) (kind : ChartKind) (options : Options) :
    labelTree kind t options = settle (LabelTree.build kind t options) := by
  refine settle_bind fun path hpath => settle_bind fun values hvalues => ?_
  have hpositions : ∀ p ∈ path.map t.positionOf, p < t.columnCount := by
    intro p hp
    obtain ⟨name, hname, rfl⟩ := List.mem_map.mp hp
    exact Table.positionOf_lt (Options.columns_mem hpath name hname)
  have hvalue : ∀ p, values.map t.positionOf = some p → p < t.columnCount := by
    intro p hp
    obtain ⟨name, rfl, rfl⟩ := Option.map_eq_some_iff.mp hp
    exact Table.positionOf_lt (Options.optionalColumn_mem hvalues)
  rw [Indexed.nodes_eq_ok ht hpositions hvalue]
  rfl

end Guarded
end TableSteps
