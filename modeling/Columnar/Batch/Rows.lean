import Columnar.Batch.Basic
import Columnar.Column.Items

/-!
# Rows of batches

A row has a timestamp for the last column of a batch and an item for each of the others.  A batch
is built row by row from the batch without rows.
-/

namespace Columnar

namespace Schema

/-- How the column at a position keeps its values. -/
def storageAt (schema : Schema) (index : Nat) : Storage :=
  (schema[index]?.getD .empty).type.storage

/-- The last field is one of integers, and all others have storage. -/
structure Sortable (schema : Schema) : Prop where
  time_type : (schema[schema.length - 1]?.getD .empty).type = .integer
  kept : ∀ index, index + 1 < schema.length → schema.storageAt index ≠ .absent

theorem Sortable.some_fields {schema : Schema} (sortable : schema.Sortable) :
    0 < schema.length := by
  cases schema with
  | nil => cases sortable.time_type
  | cons field rest => exact Nat.succ_pos rest.length

end Schema

/-- One row of a batch. -/
structure Row where
  /-- The items of all columns but the last. -/
  items : List Item
  time : Int64
deriving DecidableEq, Repr

namespace Row

/-- The item in the column at a position. -/
def itemAt (row : Row) (index : Nat) : Item :=
  row.items[index]?.getD none

/-- The cells that rows have in the column at a position. -/
def cellsAt (rows : List Row) (index : Nat) : List Cell :=
  rows.map fun row => Item.cell (row.itemAt index)

/-- The row has an item of the right type for each field but the last. -/
def Fits (schema : Schema) (row : Row) : Prop :=
  row.items.length + 1 = schema.length ∧
    ∀ pair ∈ schema.zip row.items, Item.HasType pair.1.type pair.2

instance (schema : Schema) (row : Row) : Decidable (row.Fits schema) :=
  inferInstanceAs (Decidable (_ ∧ _))

theorem Fits.hasType_itemAt {schema : Schema} {row : Row} (fits : row.Fits schema) {index : Nat}
    (earlier : index + 1 < schema.length) :
    Item.HasType (schema[index]?.getD .empty).type (row.itemAt index) := by
  obtain ⟨lengthEq, typed⟩ := fits
  have inside : index < schema.length := Nat.lt_of_succ_lt earlier
  have itemInside : index < row.items.length := by omega
  rw [itemAt, List.getElem?_eq_getElem inside, List.getElem?_eq_getElem itemInside]
  apply typed (schema[index], row.items[index])
  exact List.mem_of_getElem?
    (List.getElem?_zip_eq_some.mpr ⟨List.getElem?_eq_getElem inside,
      List.getElem?_eq_getElem itemInside⟩)

end Row

namespace Batch

/-- Appends the items of a row to all columns but the last. -/
def appendItems (row : Row) (batch : Batch) : Batch :=
  { batch with
    columns := batch.columns.mapIdx fun index column =>
      if index + 1 < batch.columns.length then
        column.appendItem (batch.fieldAt index).type (row.itemAt index)
      else
        column }

/-- Appends a row. -/
def appendRow (row : Row) (batch : Batch) : Batch :=
  (batch.appendItems row).appendTime row.time

/-- Appends rows. -/
def appendRows (rows : List Row) (batch : Batch) : Batch :=
  rows.foldl (fun batch row => batch.appendRow row) batch

/-- The batch of the given rows. -/
def ofRows (schema : Schema) (rows : List Row) : Batch :=
  (ofSchema schema).appendRows rows

end Batch

end Columnar
