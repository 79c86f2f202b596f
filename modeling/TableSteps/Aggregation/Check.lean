import TableSteps.Aggregation.Config
import TableSteps.Step.Scope
import TableSteps.Step.Columns

/-! # Checking an aggregation

What needs no table is checked first: names, the shape of subjects, and that operators combine
results of earlier entries. With a table at hand the columns that the config names are looked up. -/

namespace TableSteps.Aggregation

/-- Axis columns have names, each its own. -/
def checkAxis (i : Nat) (before : List String) : List String → Checked Unit
  | [] => .ok ()
  | name :: rest => do
    checkName (axisPlace i) name
    if before.contains name then refuse (axisPlace i) (.repeatedAxis name)
    else checkAxis (i + 1) (before ++ [name]) rest

/-- The subject of an entry suits its method. -/
def checkSubject (scope : Scope Unit) (i : Nat) (entry : Entry) : Checked Unit :=
  match entry.method with
  | .reduce _ =>
    match entry.subject.single? with
    | some _ => .ok ()
    | none => refuse (subjectPlace i) (.wrongSubject .oneColumn entry.subject.encode)
  | .combine _ =>
    match entry.subject.pair? with
    | some (left, right) => (scope.pair (subjectPlace i) left right).map fun _ => ()
    | none => refuse (subjectPlace i) (.wrongSubject .twoNames entry.subject.encode)

/-- One entry, with the entries before it in scope. -/
def checkEntry (axis : List String) (scope : Scope Unit) (i : Nat) (entry : Entry) :
    Checked (Scope Unit) := do
  checkName (namePlace i) entry.name
  if axis.contains entry.name then refuse (namePlace i) (.axisCollision entry.name)
  else
    checkSubject scope i entry
    (scope.define entry.name ()).mapError (.moveTo (namePlace i))

def checkEntries (axis : List String) (i : Nat) (scope : Scope Unit) :
    List Entry → Checked (Scope Unit)
  | [] => .ok scope
  | entry :: rest => do
    let scope ← checkEntry axis scope i entry
    checkEntries axis (i + 1) scope rest

/-- What can be checked without a table. -/
def checkShape (config : Aggregation) : Checked Unit := do
  checkAxis 0 [] config.axis
  let _ ← checkEntries config.axis 0 .empty config.entries
  pure ()

variable {α : Type} [Quantity α]

def checkAxisColumns (t : Table α) (i : Nat) : List String → Checked Unit
  | [] => .ok ()
  | name :: rest => do
    t.checkColumn (axisPlace i) name
    checkAxisColumns t (i + 1) rest

def checkEntryColumns (t : Table α) (i : Nat) : List Entry → Checked Unit
  | [] => .ok ()
  | entry :: rest => do
    match entry.method, entry.subject.single? with
    | .reduce reduction, some column =>
      t.checkFor reduction.needsNumbers (subjectPlace i) column
    | _, _ => pure ()
    checkEntryColumns t (i + 1) rest

/-- The columns that the config names. -/
def checkColumns (config : Aggregation) (t : Table α) : Checked Unit := do
  checkAxisColumns t 0 config.axis
  checkEntryColumns t 0 config.entries

def check (config : Aggregation) (t? : Option (Table α)) : Checked Unit := do
  config.checkShape
  match t? with
  | some t => config.checkColumns t
  | none => pure ()

end TableSteps.Aggregation
