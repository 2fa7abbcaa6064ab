import Columnar.Column.Basic
import Columnar.Field

/-!
# Batches

A batch is a schema and a column for each of its fields.  The last column holds the timestamps of
the rows.  The two lists are independent data: a batch from outside may have more of one than of
the other.
-/

namespace Columnar

/-- Rows stored column by column. -/
structure Batch where
  schema : Schema
  columns : List Column
deriving DecidableEq, Repr

namespace Batch

/-- The batch without fields and columns. -/
def empty : Batch :=
  ⟨[], []⟩

/-- A batch of the given fields without rows. -/
def ofSchema (schema : Schema) : Batch :=
  ⟨schema, List.replicate schema.length .empty⟩

/-- The field at a position. -/
def fieldAt (batch : Batch) (index : Nat) : Field :=
  batch.schema[index]?.getD .empty

/-- The column at a position. -/
def columnAt (batch : Batch) (index : Nat) : Column :=
  batch.columns[index]?.getD .empty

/-- The rows of the last column, or zero without columns. -/
def rowCount (batch : Batch) : Int32 :=
  (batch.columns.getLast?.map Column.rowCount).getD 0

/-- The timestamps that the last column holds. -/
def times (batch : Batch) : List Int64 :=
  (batch.columns.getLast?.map Column.integers).getD []

theorem rowCount_eq_columnAt (batch : Batch) :
    batch.rowCount = (batch.columnAt (batch.columns.length - 1)).rowCount := by
  rw [rowCount, columnAt, List.getLast?_eq_getElem?]
  cases batch.columns[batch.columns.length - 1]? <;> rfl

theorem times_eq_integers (batch : Batch) :
    batch.times = (batch.columnAt (batch.columns.length - 1)).integers := by
  rw [times, columnAt, List.getLast?_eq_getElem?]
  cases batch.columns[batch.columns.length - 1]? <;> rfl

/-- Appends one timestamp to the last column. -/
def appendTime (time : Int64) (batch : Batch) : Batch :=
  { batch with columns := batch.columns.modify (batch.columns.length - 1) (·.appendInteger time) }

/-- Appends timestamps to the last column. -/
def appendTimes (times : List Int64) (batch : Batch) : Batch :=
  times.foldl (fun batch time => batch.appendTime time) batch

/-- Whether the field at one position belongs strictly before the field at another. -/
def precedes (batch : Batch) (first second : Nat) : Bool :=
  (batch.fieldAt first).precedes (batch.fieldAt second)

/-- Exchanges the items at two positions of a list that has both. -/
def exchange {α : Type} (first second : Nat) (items : List α) : List α :=
  match items[first]?, items[second]? with
  | some firstItem, some secondItem => (items.set first secondItem).set second firstItem
  | _, _ => items

/-- Exchanges two fields together with their columns. -/
def exchangeColumns (first second : Nat) (batch : Batch) : Batch :=
  ⟨exchange first second batch.schema, exchange first second batch.columns⟩

/-- Removes one column and leaves the schema as it is. -/
def eraseColumn (index : Nat) (batch : Batch) : Batch :=
  { batch with columns := batch.columns.eraseIdx index }

/-- Appends `count` columns without rows, or drops that many from the end when the count is
negative. -/
def addColumns (count : Int) (batch : Batch) : Batch :=
  { batch with columns := resize .empty (batch.columns.length + count).toNat batch.columns }

/-- Removes the rows of the columns at positions `first` up to, but not including, `last`. -/
def clearColumns (first last : Int) (batch : Batch) : Batch :=
  { batch with
    columns := batch.columns.mapIdx fun index column =>
      if first ≤ index ∧ (index : Int) < last then .empty else column }

end Batch

end Columnar
