import TableSteps.Filter.Config
import TableSteps.Step.Columns

/-! # Checking a filter

Values, bounds, percentiles and key lists are checked without a table; with a table at hand the
columns that the config names are looked up. -/

namespace TableSteps

/-- What a check makes of a category whose column the table lacks. -/
inductive StaleCategories where
  /-- It is refused. -/
  | refused
  /-- It is left to the run, which passes over it. -/
  | allowed
deriving DecidableEq

namespace Filter

variable {α : Type} [WireQuantity α]

/-- A category lists scalar values. -/
def checkCategory (category : String × List Json) : Checked Unit :=
  match category.2.find? fun value => !value.isScalar with
  | some value => refuse (categoryPlace category.1) (.nestedCategory value)
  | none => .ok ()

def checkCategories : List (String × List Json) → Checked Unit
  | [] => .ok ()
  | category :: rest => do
    checkCategory category
    checkCategories rest

def checkPercentile (name : String) (percentile : α) : Checked Unit :=
  if Quantity.le (Quantity.ofNat 0) percentile && Quantity.le percentile (Quantity.ofNat 100) then
    .ok ()
  else refuse (numericPlace name) (.percentileOutside (WireQuantity.toJson percentile))

/-- The numbers of a numeric filter make sense together. -/
def checkNumbers : NumberFilter α → Checked Unit
  | .range _ min max =>
    match Bound.active? min, Bound.active? max with
    | some low, some high =>
      if Quantity.lt high.value low.value then
        refuse (numericPlace "min")
          (.invertedRange (WireQuantity.toJson low.value) (WireQuantity.toJson high.value))
      else .ok ()
    | _, _ => .ok ()
  | .top _ count _ =>
    if count ≤ 0 then refuse (numericPlace "k") (.nonPositiveCount count) else .ok ()
  | .band _ low high => do
    checkPercentile "min_percentile" low
    checkPercentile "max_percentile" high
    if Quantity.lt high low then
      refuse (numericPlace "min_percentile")
        (.invertedPercentiles (WireQuantity.toJson low) (WireQuantity.toJson high))
    else pure ()

def checkNumeric (filter : NumberFilter α) : Checked Unit := do
  checkName (numericPlace "column") filter.column
  checkNumbers filter

/-- An enabled join has key columns and the name of a reference. -/
def checkJoin (filter : JoinFilter) : Checked Unit :=
  if filter.keyColumns.isEmpty then refuse (joinPlace "key_columns") .noKeyColumns
  else if filter.reference.any fun name => !Text.isBlankName name then .ok ()
  else refuse (joinPlace "reference") .noReference

/-- What can be checked without a table. -/
def checkShape (config : Filter α) : Checked Unit := do
  match config.categories with
  | some categories => checkCategories categories.entries
  | none => pure ()
  match config.numeric with
  | some filter => checkNumeric filter
  | none => pure ()
  match config.activeJoin? with
  | some filter => checkJoin filter
  | none => pure ()

def checkCategoryColumns (t : Table α) : List String → Checked Unit
  | [] => .ok ()
  | name :: rest => do
    t.checkColumn (categoryPlace name) name
    checkCategoryColumns t rest

def checkKeyColumns (t : Table α) (i : Nat) : List String → Checked Unit
  | [] => .ok ()
  | name :: rest => do
    t.checkColumn (keyPlace i) name
    checkKeyColumns t (i + 1) rest

/-- The columns that the config names. -/
def checkColumns (config : Filter α) (t : Table α) (stale : StaleCategories) : Checked Unit := do
  match config.categories, stale with
  | some categories, .refused => checkCategoryColumns t categories.keys
  | _, _ => pure ()
  match config.numeric with
  | some filter => t.checkNumeric (numericPlace "column") filter.column
  | none => pure ()
  match config.activeJoin? with
  | some filter => checkKeyColumns t 0 filter.keyColumns
  | none => pure ()

def check (config : Filter α) (t? : Option (Table α)) (stale : StaleCategories) :
    Checked Unit := do
  config.checkShape
  match t? with
  | some t => config.checkColumns t stale
  | none => pure ()

end Filter
end TableSteps
