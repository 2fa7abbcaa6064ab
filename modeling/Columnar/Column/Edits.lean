import Columnar.Column.Items

/-!
# Edits of columns

The ways in which a column is changed row by row: one row or several are appended, the last one is
removed, or all are.  An edit is run on a column and applied to the list of items that the column
stands for.

Counts and offsets are 32-bit words, so a run of edits is looked at only as long as the rows and
their bytes can be counted.
-/

namespace Columnar

/-- A change of a column. -/
inductive Edit where
  /-- Append one row. -/
  | append (item : Item)
  /-- Append a row for each of several values of one kind. -/
  | integers (values : List Int64)
  | floats (values : List Binary64)
  | booleans (values : List Bool)
  | texts (values : List Bytes)
  /-- Append null rows, none when the count is negative. -/
  | nulls (count : Int)
  /-- Remove the last row, if there is one. -/
  | removeLast
  /-- Remove all rows. -/
  | clear
deriving DecidableEq, Repr

namespace Edit

/-- Whether the edit is one of columns of the type. -/
def HasType (type : ValueType) : Edit → Prop
  | append item => Item.HasType type item
  | integers _ => type = .integer
  | floats _ => type = .float
  | booleans _ => type = .boolean
  | texts _ => type.storage = .text
  | nulls _ => True
  | removeLast => True
  | clear => True

instance (type : ValueType) : (edit : Edit) → Decidable (edit.HasType type)
  | append item => inferInstanceAs (Decidable (Item.HasType type item))
  | integers _ => inferInstanceAs (Decidable (type = .integer))
  | floats _ => inferInstanceAs (Decidable (type = .float))
  | booleans _ => inferInstanceAs (Decidable (type = .boolean))
  | texts _ => inferInstanceAs (Decidable (type.storage = .text))
  | nulls _ => inferInstanceAs (Decidable True)
  | removeLast => inferInstanceAs (Decidable True)
  | clear => inferInstanceAs (Decidable True)

/-- Changes a column of the given type. -/
def run (type : ValueType) (edit : Edit) (column : Column) : Except UnsupportedType Column :=
  match edit with
  | append item => .ok (column.appendItem type item)
  | integers values => .ok (column.appendEach Column.appendInteger values)
  | floats values => .ok (column.appendEach Column.appendFloat values)
  | booleans values => .ok (column.appendEach Column.appendBoolean values)
  | texts values => .ok (column.appendEach Column.appendText values)
  | nulls count =>
    .ok (if type.isText then column.appendTextNulls count else column.appendNulls count)
  | removeLast => column.removeLast type
  | clear => .ok .empty

/-- The list of items after the change. -/
def apply (items : List Item) : Edit → List Item
  | append item => items ++ [item]
  | integers values => items ++ values.map fun value => some (.integer value)
  | floats values => items ++ values.map fun value => some (.float value)
  | booleans values => items ++ values.map fun value => some (.boolean value)
  | texts values => items ++ values.map fun value => some (.text value)
  | nulls count => items ++ List.replicate count.toNat none
  | removeLast => items.dropLast
  | clear => []

/-- Changes a column step by step. -/
def runAll (type : ValueType) (edits : List Edit) (column : Column) :
    Except UnsupportedType Column :=
  edits.foldlM (fun column edit => edit.run type column) column

/-- The list of items after all changes. -/
def applyAll (items : List Item) (edits : List Edit) : List Item :=
  edits.foldl apply items

end Edit

namespace Item

/-- The rows can be counted in a signed word, and their bytes in an unsigned one. -/
def Countable (items : List Item) : Prop :=
  (items.length : Int) ≤ Int32.maxValue.toInt ∧
    (Cell.packed (items.map cell)).length < UInt32.size

/-- The rows can be counted before the edits and after each of them. -/
def CountableThrough (items : List Item) : List Edit → Prop
  | [] => Countable items
  | edit :: rest => Countable items ∧ CountableThrough (edit.apply items) rest

instance (items : List Item) : Decidable (Countable items) :=
  inferInstanceAs (Decidable (_ ∧ _))

instance CountableThrough.decide :
    (items : List Item) → (edits : List Edit) → Decidable (CountableThrough items edits)
  | items, [] => inferInstanceAs (Decidable (Countable items))
  | items, edit :: rest =>
    have := CountableThrough.decide (edit.apply items) rest
    inferInstanceAs (Decidable (Countable items ∧ CountableThrough (edit.apply items) rest))

end Item

end Columnar
