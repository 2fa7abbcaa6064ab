import Columnar.Batch.Basic
import Columnar.Column.Guarded

/-!
# Listings of batches

A listing has one line per column: the name of its field and its present values, separated by
blanks.  Texts stand in quotes; values of a type without storage are not shown.

Texts are the only values that are read row by row.  A guarded listing reads them with guards.
-/

namespace Columnar.Batch

/-- A text in quotes. -/
def quoted (value : Bytes) : Bytes :=
  Bytes.ofString "\"" ++ value ++ Bytes.ofString "\""

/-- The texts of the present values of a column. -/
def valueTexts (type : ValueType) (column : Column) : List Bytes :=
  if type = .integer then
    column.integers.map fun value => Bytes.ofString (toString value.toInt)
  else if type = .float then
    column.floats.map fun value => Bytes.ofString value.text
  else if type = .boolean then
    column.booleans.map fun value => Bytes.ofString (if value then "true" else "false")
  else if type.isText then
    column.texts.map quoted
  else
    []

/-- The line of a field with the given texts of values. -/
def line (field : Field) (values : List Bytes) : Bytes :=
  Bytes.ofString "field(" ++ field.name ++ Bytes.ofString "):[" ++
    (values.intersperse (Bytes.ofString " ")).flatten ++ Bytes.ofString "]\n"

/-- The line of one column. -/
def columnLine (field : Field) (column : Column) : Bytes :=
  line field (valueTexts field.type column)

/-- One line for each field that has a column. -/
def listing (batch : Batch) : Bytes :=
  (batch.schema.zipWith columnLine batch.columns).flatten

/-! ## Guarded listings -/

/-- The texts of the present values of a column, as `valueTexts` yields them. -/
def valueTexts? (type : ValueType) (column : Column) : Option (List Bytes) :=
  if type.isText then column.texts?.map (·.map quoted) else some (valueTexts type column)

/-- The lines of the fields that have a column. -/
def lines? : Schema → List Column → Option Bytes
  | field :: schema, column :: columns => do
    let values ← valueTexts? field.type column
    let rest ← lines? schema columns
    return line field values ++ rest
  | _, _ => some []

/-- The listing of a batch, as `listing` yields it. -/
def listing? (batch : Batch) : Option Bytes :=
  lines? batch.schema batch.columns

end Columnar.Batch
