import Columnar.Batch.Rows
import Columnar.Proofs.Column.Spans
import Columnar.Proofs.Sorter.Building

/-!
# Batches that are built row by row

The rows of a batch are known by their timestamps and by the cells of every column.  A batch whose
columns are the packed forms of these (`Batch.Packed`) stays one when rows are appended, and nothing
that is read of its rows depends on more than these (`Packed.sameRows`).
-/

namespace Columnar

/-- Of columns that represent the same cells the same rows are null. -/
theorem Column.Represents.isNull_congr {storage : Storage} {cells : List Cell}
    {first second : Column} (firstRepresents : first.Represents storage cells)
    (secondRepresents : second.Represents storage cells) (row : Nat) :
    first.isNull row = second.isNull row := by
  have firstRows := firstRepresents.rowCount_eq
  have secondRows := secondRepresents.rowCount_eq
  by_cases inside : row < cells.length
  · have cellAtRow := List.getElem?_eq_getElem inside
    rw [firstRepresents.isNull_eq cellAtRow, secondRepresents.isNull_eq cellAtRow]
  · rw [isNull, isNull, if_pos (Or.inl (by omega)), if_pos (Or.inl (by omega))]

namespace Batch

/-! ## Appending rows -/

section Appending

variable (row : Row) (rows : List Row) (batch : Batch)

theorem schema_appendRows : (batch.appendRows rows).schema = batch.schema := by
  induction rows generalizing batch with
  | nil => rfl
  | cons row rest ih => exact ih (batch.appendRow row)

theorem length_columns_appendRow :
    (batch.appendRow row).columns.length = batch.columns.length := by
  rw [appendRow, appendTime, List.length_modify, appendItems, List.length_mapIdx]

theorem length_columns_appendRows :
    (batch.appendRows rows).columns.length = batch.columns.length := by
  induction rows generalizing batch with
  | nil => rfl
  | cons row rest ih => exact (ih (batch.appendRow row)).trans (length_columns_appendRow row batch)

variable {batch} {index : Nat}

theorem columnAt_appendItems (inside : index < batch.columns.length) :
    (batch.appendItems row).columnAt index =
      if index + 1 < batch.columns.length then
        (batch.columnAt index).appendItem (batch.fieldAt index).type (row.itemAt index)
      else
        batch.columnAt index := by
  rw [columnAt, columnAt, appendItems, List.getElem?_mapIdx, List.getElem?_eq_getElem inside]
  rfl

theorem columnAt_appendRow (earlier : index + 1 < batch.columns.length) :
    (batch.appendRow row).columnAt index =
      (batch.columnAt index).appendItem (batch.fieldAt index).type (row.itemAt index) := by
  have itemsEarlier : index + 1 < (batch.appendItems row).columns.length := by
    rw [appendItems, List.length_mapIdx]
    exact earlier
  have timed := columnAt_appendTimes [row.time] (batch.appendItems row) itemsEarlier
  rw [columnAt_appendItems row (Nat.lt_of_succ_lt earlier), if_pos earlier] at timed
  exact timed

theorem lastColumn_appendRow (last : index + 1 = batch.columns.length) :
    (batch.appendRow row).columnAt index = (batch.columnAt index).appendInteger row.time := by
  have itemsLast : index + 1 = (batch.appendItems row).columns.length := by
    rw [appendItems, List.length_mapIdx]
    exact last
  have timed := lastColumn_appendTimes [row.time] itemsLast
  rw [columnAt_appendItems row (by omega), if_neg (by omega)] at timed
  exact timed

theorem columnAt_appendRows (earlier : index + 1 < batch.columns.length) :
    (batch.appendRows rows).columnAt index =
      (batch.columnAt index).appendEach (Column.appendItem (batch.fieldAt index).type)
        (rows.map fun row => row.itemAt index) := by
  induction rows generalizing batch with
  | nil => rfl
  | cons row rest ih =>
    rw [← length_columns_appendRow row] at earlier
    have appended := ih earlier
    rw [length_columns_appendRow row] at earlier
    rw [columnAt_appendRow row earlier] at appended
    exact appended

theorem lastColumn_appendRows (last : index + 1 = batch.columns.length) :
    (batch.appendRows rows).columnAt index =
      (batch.columnAt index).appendEach Column.appendInteger (rows.map Row.time) := by
  induction rows generalizing batch with
  | nil => rfl
  | cons row rest ih =>
    rw [← length_columns_appendRow row] at last
    have appended := ih last
    rw [length_columns_appendRow row] at last
    rw [lastColumn_appendRow row last] at appended
    exact appended

end Appending

/-! ## Packed batches -/

/-- The columns are the packed forms of lists of cells, with one cell for each row, and the last one
that of the timestamps. -/
structure Packed (schema : Schema) (times : List Int64) (cellsAt : Nat → List Cell)
    (batch : Batch) : Prop where
  schema_eq : batch.schema = schema
  columns_length : batch.columns.length = schema.length
  columns : ∀ index, index + 1 < schema.length →
    (batch.columnAt index).Represents (schema.storageAt index) (cellsAt index)
  length_cells : ∀ index, index + 1 < schema.length → (cellsAt index).length = times.length
  last : ∀ index, index + 1 = schema.length →
    (batch.columnAt index).Represents (.packed 8) (times.map Cell.ofInteger)

/-- Two batches of the same rows: the same timestamps, and in each column the same null rows and
the same values in the others. -/
structure SameRows (first second : Batch) : Prop where
  schema_eq : first.schema = second.schema
  columns_length : first.columns.length = second.columns.length
  times_eq : first.times = second.times
  rowCount_eq : ∀ index < first.columns.length,
    (first.columnAt index).rowCount = (second.columnAt index).rowCount
  isNull_eq : ∀ index < first.columns.length, ∀ row : Nat,
    (first.columnAt index).isNull row = (second.columnAt index).isNull row
  cells_eq : ∀ index < first.columns.length,
    (first.columnAt index).cells (first.schema.storageAt index) =
      (second.columnAt index).cells (second.schema.storageAt index)

/-- The cells of all texts together lie where offsets can point. -/
def CellsAddressable (schema : Schema) (cellsAt : Nat → List Cell) : Prop :=
  ∀ index, index + 1 < schema.length → schema.storageAt index = .text →
    (Cell.packed (cellsAt index)).length < UInt32.size

variable {schema : Schema} {times : List Int64} {cellsAt : Nat → List Cell} {batch : Batch}

theorem CellsAddressable.mono (addressable : CellsAddressable schema cellsAt)
    {fewer : Nat → List Cell}
    (bytesLe : ∀ index, index + 1 < schema.length →
      (Cell.packed (fewer index)).length ≤ (Cell.packed (cellsAt index)).length) :
    CellsAddressable schema fewer := fun index earlier text =>
  Nat.lt_of_le_of_lt (bytesLe index earlier) (addressable index earlier text)

theorem packed_ofSchema (schema : Schema) : (ofSchema schema).Packed schema [] fun _ => [] where
  schema_eq := rfl
  columns_length := List.length_replicate
  columns := by
    intro index _
    rw [columnAt_ofSchema]
    exact Column.represents_empty _
  length_cells := fun _ _ => rfl
  last := by
    intro index _
    rw [columnAt_ofSchema]
    exact Column.represents_empty _

namespace Packed

theorem storage_eq (packed : batch.Packed schema times cellsAt) (index : Nat) :
    (batch.fieldAt index).type.storage = schema.storageAt index := by
  rw [fieldAt, packed.schema_eq, Schema.storageAt]

theorem appendRows (packed : batch.Packed schema times cellsAt) {rows : List Row}
    (fits : ∀ row ∈ rows, row.Fits schema) (rowsFit : times.length + rows.length < 2 ^ 31) :
    (batch.appendRows rows).Packed schema (times ++ rows.map Row.time)
      fun index => cellsAt index ++ Row.cellsAt rows index where
  schema_eq := by rw [schema_appendRows, packed.schema_eq]
  columns_length := by rw [length_columns_appendRows, packed.columns_length]
  columns := by
    intro index earlier
    have typed : ∀ item ∈ rows.map fun row => row.itemAt index,
        Item.HasType (schema[index]?.getD .empty).type item := by
      intro item member
      obtain ⟨row, rowMember, rfl⟩ := List.mem_map.mp member
      exact (fits row rowMember).hasType_itemAt earlier
    have greatest : Int32.maxValue.toInt = 2147483647 := rfl
    have appended := (packed.columns index earlier).appendEach
      (fun item member => Column.appendItem_eq_appendCell (typed item member))
      (fun item member => Item.holds_cell (typed item member))
      (by rw [packed.length_cells index earlier, List.length_map]; omega)
    rw [List.map_map] at appended
    rw [columnAt_appendRows rows (by rw [packed.columns_length]; exact earlier), fieldAt,
      packed.schema_eq]
    exact appended
  length_cells := by
    intro index earlier
    rw [List.length_append, List.length_append, List.length_map, Row.cellsAt, List.length_map,
      packed.length_cells index earlier]
  last := by
    intro index last
    rw [lastColumn_appendRows rows (by rw [packed.columns_length]; exact last), List.map_append]
    apply Column.represents_appendIntegers (packed.last index last)
    rw [List.length_map, List.length_map]
    exact rowsFit

theorem ofRows {rows : List Row} (fits : ∀ row ∈ rows, row.Fits schema)
    (rowsFit : rows.length < 2 ^ 31) :
    (Batch.ofRows schema rows).Packed schema (rows.map Row.time) (Row.cellsAt rows) := by
  apply (packed_ofSchema schema).appendRows fits
  rw [List.length_nil, Nat.zero_add]
  exact rowsFit

/-- The timestamps are read from the last column. -/
theorem times_eq (packed : batch.Packed schema times cellsAt) (sortable : schema.Sortable) :
    batch.times = times := by
  have last := packed.last _ (Nat.sub_add_cancel sortable.some_fields)
  rw [times_eq_integers, packed.columns_length]
  exact Column.integers_of_values_eq last.values_eq

/-- The columns of a packed batch are those of the cells, in front of the timestamps. -/
theorem represents (packed : batch.Packed schema times cellsAt) (sortable : schema.Sortable)
    {index : Nat} (inside : index < schema.length) :
    (batch.columnAt index).Represents (schema.storageAt index)
      (if index + 1 = schema.length then times.map Cell.ofInteger else cellsAt index) := by
  split
  next last =>
    have storageEq : schema.storageAt index = .packed 8 := by
      have timeType := sortable.time_type
      rw [← last, Nat.add_sub_cancel] at timeType
      rw [Schema.storageAt, timeType]
      rfl
    rw [storageEq]
    exact packed.last index last
  next earlier => exact packed.columns index (by omega)

theorem addressable (packed : batch.Packed schema times cellsAt) (sortable : schema.Sortable)
    (bytesLt : CellsAddressable schema cellsAt) {index : Nat} (inside : index < schema.length) :
    (batch.columnAt index).Addressable (schema.storageAt index) := by
  intro text
  by_cases last : index + 1 = schema.length
  · have timeType := sortable.time_type
    rw [← last, Nat.add_sub_cancel] at timeType
    rw [Schema.storageAt, timeType] at text
    cases text
  · have earlier : index + 1 < schema.length := by omega
    rw [(packed.columns index earlier).values_eq]
    exact bytesLt index earlier text

/-- Batches that are packed from the same lists have the same rows. -/
theorem sameRows {other : Batch} (packed : batch.Packed schema times cellsAt)
    (otherPacked : other.Packed schema times cellsAt) (sortable : schema.Sortable)
    (bytesLt : CellsAddressable schema cellsAt) : batch.SameRows other where
  schema_eq := by rw [packed.schema_eq, otherPacked.schema_eq]
  columns_length := by rw [packed.columns_length, otherPacked.columns_length]
  times_eq := by rw [packed.times_eq sortable, otherPacked.times_eq sortable]
  rowCount_eq := by
    intro index inside
    rw [packed.columns_length] at inside
    apply Int32.toInt_inj.mp
    rw [(packed.represents sortable inside).rowCount_eq,
      (otherPacked.represents sortable inside).rowCount_eq]
  isNull_eq := by
    intro index inside row
    rw [packed.columns_length] at inside
    exact (packed.represents sortable inside).isNull_congr
      (otherPacked.represents sortable inside) row
  cells_eq := by
    intro index inside
    rw [packed.columns_length] at inside
    rw [packed.schema_eq, otherPacked.schema_eq,
      (packed.represents sortable inside).cells_eq (packed.addressable sortable bytesLt inside),
      (otherPacked.represents sortable inside).cells_eq
        (otherPacked.addressable sortable bytesLt inside)]

end Packed

end Batch

end Columnar
