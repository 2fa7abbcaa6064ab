import Columnar.Batch.Basic
import Columnar.Column.Layout
import Columnar.Log

/-!
# Validation of batches

Before a batch is written it is validated: there is a column for each field, the last field is
the time field, no name occurs twice, and all columns are free of contradictions and of the same
length.  A valid batch whose fields are not in the order of their names is put into that order,
each field together with its column.

Names are compared with their neighbours only, before and after the rearrangement, because after
it equal names are neighbours.  Whether there is one is decided without regard to the place of the
time field.
-/

namespace Columnar.Batch

/-- Why a batch is not valid. -/
inductive ValidationError where
  /-- The numbers of fields and columns differ. -/
  | columnCount (fields columns : Nat)
  /-- The last field is not the time field, or there is no other. -/
  | noTime (schema : Schema)
  /-- The time field has another type than integer. -/
  | timeType (type : ValueType)
  /-- The time column counts nulls. -/
  | timeNulls (count : Int32)
  /-- The field at `index` has the name of the field before it. -/
  | repeatedName (index : Nat) (name : Bytes)
  /-- A column has not as many rows as the next one. -/
  | rowCount (index : Nat) (rows nextRows : Int32)
  /-- The values have not the size that the present rows need. -/
  | valueBytes (index : Nat) (expected : UInt64) (bytes : Nat)
  /-- The column contradicts itself in another way. -/
  | layout (index : Nat) (cause : LayoutError)
deriving DecidableEq, Repr

/-- The wording of a batch that is not valid. -/
def ValidationError.message : ValidationError → Bytes
  | .columnCount fields columns =>
      Bytes.ofString s!"invalid record: {fields} fields but {columns} columns"
  | .noTime schema => Bytes.within (Bytes.ofString "invalid schema") schema.listing
  | .timeType type =>
      Bytes.ofString
        s!"invalid schema: time field must be {ValueType.integer.label}, got {type.label}"
  | .timeNulls count =>
      Bytes.ofString s!"invalid colvals: time column has {count.toInt} nulls"
  | .repeatedName index name => Bytes.ofString s!"same schema; idx: {index}, name: " ++ name
  | .rowCount index rows nextRows =>
      Bytes.ofString (s!"invalid colvals length: column {index} has {rows.toInt} rows, " ++
        s!"column {index + 1} has {nextRows.toInt} rows")
  | .valueBytes index expected bytes =>
      Bytes.ofString (s!"the length of col_vals[{index}].val is incorrect. " ++
        s!"exp: {expected.toNat}, got: {bytes}")
  | .layout index cause => Bytes.within (Bytes.ofString s!"col_vals[{index}]") cause.message

/-! ## Checks of the schema -/

/-- The first field, of those from `index` on, that has the name of the field before it. -/
def repeatedNameFrom? : (index : Nat) → Schema → Option ValidationError
  | index, first :: second :: rest =>
    if second.name = first.name then
      some (.repeatedName index second.name)
    else
      repeatedNameFrom? (index + 1) (second :: rest)
  | _, _ => none

/-- The first field that has the name of the field before it. -/
def repeatedName? (schema : Schema) : Option ValidationError :=
  repeatedNameFrom? 1 schema

/-- The first violation of what the schema and the time column promise. -/
def schemaError? (batch : Batch) : Option ValidationError :=
  let last := batch.schema.length - 1
  if batch.schema.length ≠ batch.columns.length then
    some (.columnCount batch.schema.length batch.columns.length)
  else if batch.schema.length ≤ 1 ∨ (batch.fieldAt last).name ≠ Field.timeName then
    some (.noTime batch.schema)
  else if (batch.fieldAt last).type ≠ .integer then
    some (.timeType (batch.fieldAt last).type)
  else if (batch.columnAt last).nullCount ≠ 0 then
    some (.timeNulls (batch.columnAt last).nullCount)
  else
    repeatedName? batch.schema

/-! ## Checks of the columns -/

/-- A column that has not as many rows as the next one. -/
def rowCountError? (batch : Batch) (index : Nat) : Option ValidationError :=
  let rows := (batch.columnAt index).rowCount
  let nextRows := (batch.columnAt (index + 1)).rowCount
  if index + 1 < batch.schema.length ∧ rows ≠ nextRows then
    some (.rowCount index rows nextRows)
  else
    none

/-- A column whose buffers do not hold what its header and its field's type say. -/
def contentError? (batch : Batch) (index : Nat) : Option ValidationError :=
  let type := (batch.fieldAt index).type
  let column := batch.columnAt index
  let expected := column.expectedBytes type
  if type.isText = false ∧ expected.toNat ≠ column.values.length then
    some (.valueBytes index expected column.values.length)
  else
    (column.layoutError? type).map (.layout index)

/-- The first violation in one column. -/
def columnError? (batch : Batch) (index : Nat) : Option ValidationError :=
  match batch.rowCountError? index with
  | some cause => some cause
  | none => batch.contentError? index

/-- The first violation in the columns, in their order. -/
def firstColumnError? (batch : Batch) : Option ValidationError :=
  (List.range batch.schema.length).findSome? batch.columnError?

/-! ## The order of the fields -/

/-- Whether the field at a position is a value field that does not follow its predecessor in the
order of names. -/
def isMisplaced (batch : Batch) (index : Nat) : Bool :=
  0 < index && index + 1 < batch.schema.length &&
    (batch.fieldAt index).name ≤ (batch.fieldAt (index - 1)).name

/-- The first value field out of order. -/
def firstMisplaced? (batch : Batch) : Option Nat :=
  (List.range batch.schema.length).find? batch.isMisplaced

/-- The message that reports the first value field out of order. -/
def misplacedEntry (batch : Batch) (index : Nat) : Log.Entry where
  level := .debug
  message :=
    Bytes.ofString s!"msg=\"record schema is not ordered\" idx={index - 1} name=" ++
      (batch.fieldAt (index - 1)).name ++
      Bytes.ofString s!" idx={index} name=" ++ (batch.fieldAt index).name

/-- What validation reports: the first field out of order, unless a violation in an earlier
column, or in the number of rows of that field's column, comes first. -/
def validationLog (batch : Batch) : List Log.Entry :=
  match batch.firstMisplaced? with
  | none => []
  | some index =>
    let reached :=
      (List.range index).all (fun earlier => (batch.columnError? earlier).isNone) &&
        (batch.rowCountError? index).isNone
    if reached then [batch.misplacedEntry index] else []

/-- The same fields and columns in the order of names, the time field last. Fields of one name
keep their order. -/
def sortedByName (batch : Batch) : Batch :=
  let pairs := (batch.schema.zip batch.columns).mergeSort fun first second =>
    !second.1.precedes first.1
  ⟨pairs.map Prod.fst, pairs.map Prod.snd⟩

/-! ## Validation -/

/-- What validation leaves: the batch, perhaps rearranged, a violation if there is one, and the
messages on the way. -/
structure Validation where
  batch : Batch
  error? : Option ValidationError
  log : List Log.Entry
deriving DecidableEq, Repr

/-- Validates a batch and puts its fields into the order of their names. -/
def validate (batch : Batch) : Validation :=
  match batch.schemaError? with
  | some cause => ⟨batch, some cause, []⟩
  | none =>
    match batch.firstColumnError? with
    | some cause => ⟨batch, some cause, batch.validationLog⟩
    | none =>
      match batch.firstMisplaced? with
      | none => ⟨batch, none, []⟩
      | some _ =>
        let sorted := batch.sortedByName
        ⟨sorted, repeatedName? sorted.schema, batch.validationLog⟩

end Columnar.Batch
