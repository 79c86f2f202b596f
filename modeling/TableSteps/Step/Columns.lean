import TableSteps.Step.Error

/-! # What configs are checked for

The checks of all kinds of step are made of these: a name is not blank, a column is there, a column
is numeric. -/

namespace TableSteps

variable {α : Type}

/-- The table has the column. -/
def Table.checkColumn (t : Table α) (place : Place) (name : String) : Checked Unit :=
  if t.hasColumn name then .ok () else refuse place (.unknownColumn name t.columns)

/-- The table has the column, and it is numeric. -/
def Table.checkNumeric [Quantity α] (t : Table α) (place : Place) (name : String) :
    Checked Unit := do
  t.checkColumn place name
  if t.isNumericColumn name then pure () else refuse place (.notNumeric name)

/-- A column fit for a reduction. -/
def Table.checkFor [Quantity α] (t : Table α) (needsNumbers : Bool) (place : Place)
    (name : String) : Checked Unit :=
  if needsNumbers then t.checkNumeric place name else t.checkColumn place name

/-- The name does not consist of blanks. -/
def checkName (place : Place) (name : String) : Checked Unit :=
  if Text.isBlankName name then refuse place .blankName else .ok ()

end TableSteps
