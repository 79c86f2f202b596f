import TableSteps.Chart.Options
import TableSteps.Chart.Figure
import TableSteps.Chart.Column

/-! # Sunbursts and treemaps

A path of columns gives every row a path of labels. A node stands for a beginning of such paths;
its id joins the labels with slashes. Every row adds its amount to each node on its path, so a
parent carries the amounts of its children. -/

namespace TableSteps

namespace LabelTree

structure Node (α : Type) where
  id : String
  label : String
  /-- The id of the parent; empty at the root. -/
  parent : String
  value : α

/-- The label of a node; a blank one has a text of its own. -/
def nodeLabel (s : String) : String := if s.isEmpty then "(blank)" else s

def childId (parent label : String) : String :=
  if parent.isEmpty then label else parent ++ "/" ++ label

variable {α : Type} [Quantity α]

/-- Adds an amount to the node with this id, which is set up behind the others if it is new. -/
def add (node : Node α) : List (Node α) → List (Node α)
  | [] => [node]
  | n :: rest =>
    if n.id = node.id then { n with value := n.value + node.value } :: rest
    else n :: add node rest

/-- An amount goes to the one node that has the id. -/
theorem ids_add (node : Node α) (nodes : List (Node α)) :
    (add node nodes).map Node.id =
      if node.id ∈ nodes.map Node.id then nodes.map Node.id
      else nodes.map Node.id ++ [node.id] := by
  induction nodes with
  | nil => simp [add]
  | cons n rest ih =>
    by_cases h : n.id = node.id
    · simp [add, h]
    · have h' : ¬ node.id = n.id := fun e => h e.symm
      simp only [add, h, if_false, List.map_cons, ih, List.mem_cons, h', false_or, List.cons_append]
      split <;> rfl

/-- Adds an amount to every node on a path of labels below a parent. -/
def addPath (amount : α) (parent : String) : List String → List (Node α) → List (Node α)
  | [], nodes => nodes
  | label :: rest, nodes =>
    let id := childId parent label
    addPath amount id rest (add ⟨id, label, parent, amount⟩ nodes)

/-- The labels of a row along the path. -/
def rowPath (path : List Nat) (row : Row α) : List String :=
  path.map fun p => nodeLabel (cellAt row p).label

/-- What a row adds: its number in the value column, or one if there is no value column. -/
def amount (values : Option Nat) (row : Row α) : α :=
  match values with
  | some p => ((cellAt row p).asNumber).getD Quantity.zero
  | none => Quantity.ofNat 1

def nodes (t : Table α) (path : List Nat) (values : Option Nat) : List (Node α) :=
  t.rows.foldl (fun nodes row => addPath (amount values row) "" (rowPath path row) nodes) []

end LabelTree

variable {α : Type} [WireQuantity α]

namespace LabelTree

def render (kind : ChartKind) (values : Option String) (nodes : List (Node α)) : Json :=
  .record
    [ ("type", .str kind.base.tag), ("name", .str (values.getD "count")),
      ("ids", .strings (nodes.map Node.id)), ("labels", .strings (nodes.map Node.label)),
      ("parents", .strings (nodes.map Node.parent)),
      ("values", .arr (nodes.map fun n => WireQuantity.toJson n.value)),
      ("branchvalues", .str "total") ]

def build (kind : ChartKind) (t : Table α) (options : Options) : Charted Drawing := do
  let path ← Options.columns options t "path"
  let values ← Options.optionalColumn options t "values"
  let found := nodes t (path.map t.positionOf) (values.map t.positionOf)
  pure ⟨[render kind values found], .empty⟩

end LabelTree

end TableSteps
