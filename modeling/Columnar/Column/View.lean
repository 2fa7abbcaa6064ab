import Columnar.Column.Cells
import Columnar.Column.Layout

/-!
# Reading the cells of a column

`Column.cells` reads the list of cells of any column, packed or not.  On a column that represents
a list it is that list (`Represents.cells_eq`), so a column represents at most one.

`Column.WellFormed` is what a column from outside has to satisfy before its cells can be trusted:
no contradiction that the layout checks find, a null count that agrees with the bitmap, and no
bytes for null texts.
-/

namespace Columnar.Column

/-- How many rows before a row are present. -/
def presentBefore (column : Column) (row : Nat) : Nat :=
  (List.range row).countP fun (earlier : Nat) => !column.isNull earlier

/-- The bytes of a present row. A fixed-width value lies behind the present values before it. -/
def valueAt : (storage : Storage) → (column : Column) → (row : Nat) → Bytes
  | .text, column, row => column.textAt row
  | .packed width, column, row =>
    Bytes.slice (column.presentBefore row * width) (column.presentBefore row * width + width)
      column.values
  | .absent, _, _ => []

/-- The cell of a row. -/
def cellAt (storage : Storage) (column : Column) (row : Nat) : Cell :=
  if column.isNull row then none else some (column.valueAt storage row)

/-- The cells of all rows. -/
def cells (storage : Storage) (column : Column) : List Cell :=
  (List.range column.rowCount.toInt.toNat).map (column.cellAt storage)

/-- The rows whose bit in the bitmap is clear. -/
def clearRows (column : Column) : Nat :=
  (List.range column.rowCount.toInt.toNat).countP fun (row : Nat) =>
    !Bitmap.bit column.validity (column.bitIndex row)

/-- The column can be trusted to hold rows of the given type. -/
structure WellFormed (type : ValueType) (column : Column) : Prop where
  layoutError?_eq_none : column.layoutError? type = none
  nullCount_eq : column.nullCount.toInt = column.clearRows
  textAt_of_isNull : type.storage = .text → ∀ row < column.rowCount.toInt.toNat,
    column.isNull row = true → column.textAt row = []

instance (type : ValueType) (column : Column) : Decidable (column.WellFormed type) :=
  decidable_of_iff
    (column.layoutError? type = none ∧ column.nullCount.toInt = column.clearRows ∧
      (type.storage = .text → ∀ row < column.rowCount.toInt.toNat,
        column.isNull row = true → column.textAt row = []))
    ⟨fun ⟨layout, nulls, texts⟩ => ⟨layout, nulls, texts⟩,
      fun ⟨layout, nulls, texts⟩ => ⟨layout, nulls, texts⟩⟩

/-- Where cells say which rows are null, the present rows before a row are the present cells before
it. -/
theorem presentBefore_eq_countP {cells : List Cell} {column : Column}
    (nulls : ∀ (row : Nat) (cell : Cell), cells[row]? = some cell →
      column.isNull row = cell.isNone) {row : Nat} (rowLe : row ≤ cells.length) :
    column.presentBefore row = (cells.take row).countP Option.isSome := by
  induction row with
  | zero => rfl
  | succ row ih =>
    have inside : row < cells.length := rowLe
    have cellAtRow : cells[row]? = some cells[row] := List.getElem?_eq_getElem inside
    have null := nulls row _ cellAtRow
    have before := ih (Nat.le_of_succ_le rowLe)
    rw [presentBefore] at before
    rw [presentBefore, List.range_succ, List.countP_append, before, List.take_add_one, cellAtRow,
      List.countP_append]
    cases cell_eq : cells[row] <;> simp_all

namespace Represents

variable {storage : Storage} {cells : List Cell} {column : Column}

/-- The bytes of the cells before a row, of its cell, and of the cells behind it. -/
private theorem packed_split {row : Nat} {cell : Cell} (cellAtRow : cells[row]? = some cell) :
    Cell.packed cells =
      Cell.packed (cells.take row) ++ cell.bytes ++ Cell.packed (cells.drop (row + 1)) := by
  obtain ⟨inside, rfl⟩ := List.getElem?_eq_some_iff.mp cellAtRow
  have split : cells = cells.take row ++ cells[row] :: cells.drop (row + 1) := by
    rw [← List.drop_eq_getElem_cons inside, List.take_append_drop]
  have packedEq := congrArg Cell.packed split
  rw [Cell.packed_append] at packedEq
  rw [packedEq, List.append_assoc]
  rfl

private theorem getElem?_starts (position row : Nat) (cells : List Cell) :
    (Cell.starts position cells)[row]? =
      if row < cells.length then
        some (UInt32.ofNat (position + (Cell.packed (cells.take row)).length))
      else
        none := by
  induction cells generalizing position row with
  | nil => simp [Cell.starts]
  | cons cell rest ih =>
    cases row with
    | zero => simp [Cell.starts]
    | succ row =>
      rw [Cell.starts, List.getElem?_cons_succ, ih]
      simp [Cell.packed, Nat.add_assoc]

private theorem length_packed_take_le (row : Nat) (cells : List Cell) :
    (Cell.packed (cells.take row)).length ≤ (Cell.packed cells).length := by
  conv => rhs; rw [← List.take_append_drop row cells]
  rw [Cell.packed_append, List.length_append]
  exact Nat.le_add_right _ _

/-- A text lies between the bytes of the cells before and behind it. -/
theorem textAt_eq (represents : column.Represents .text cells)
    (valuesFit : column.values.length < UInt32.size) {row : Nat} {cell : Cell}
    (cellAtRow : cells[row]? = some cell) : column.textAt row = cell.bytes := by
  obtain ⟨inside, -⟩ := List.getElem?_eq_some_iff.mp cellAtRow
  have valuesEq := represents.values_eq
  rw [valuesEq] at valuesFit
  have fits (count : Nat) : (Cell.packed (cells.take count)).length < UInt32.size :=
    Nat.lt_of_le_of_lt (length_packed_take_le count cells) valuesFit
  have start : (column.offsetAt row).toNat = (Cell.packed (cells.take row)).length := by
    rw [offsetAt, represents.offsets_eq, Storage.offsets, getElem?_starts, if_pos inside,
      Option.getD_some, Nat.zero_add, UInt32.toNat_ofNat_of_lt' (fits row)]
  have stop : column.textEnd row = (Cell.packed (cells.take (row + 1))).length := by
    rw [textEnd, represents.offsets_eq, Storage.offsets, getElem?_starts]
    split
    · rw [Option.map_some, Option.getD_some, Nat.zero_add,
        UInt32.toNat_ofNat_of_lt' (fits (row + 1))]
    · rw [Option.map_none, Option.getD_none, valuesEq, List.take_of_length_le (by omega)]
  have next : (Cell.packed (cells.take (row + 1))).length =
      (Cell.packed (cells.take row)).length + cell.bytes.length := by
    rw [List.take_add_one, cellAtRow, Option.toList_some, Cell.packed_append, List.length_append,
      Cell.packed_singleton]
  rw [textAt, start, stop, next, valuesEq, packed_split cellAtRow, Bytes.slice, List.append_assoc,
    List.drop_left' rfl, Nat.add_sub_cancel_left, List.take_left' rfl]

/-- Fixed-width values take their width for each present cell. -/
theorem length_packed {width : Nat}
    (holds : ∀ cell ∈ cells, (Storage.packed width).Holds cell) :
    (Cell.packed cells).length = cells.countP Option.isSome * width := by
  induction cells with
  | nil => simp
  | cons cell rest ih =>
    have restLength := ih fun other member => holds other (List.mem_cons_of_mem cell member)
    have unfolded : Cell.packed (cell :: rest) = cell.bytes ++ Cell.packed rest := rfl
    rw [unfolded, List.length_append, restLength, List.countP_cons]
    cases cell with
    | none => simp [Cell.bytes]
    | some value =>
      have valueLength : value.length = width := holds (some value) List.mem_cons_self
      simp [Cell.bytes, valueLength, Nat.add_mul, Nat.add_comm]

/-- A fixed-width value lies behind those of the present cells before it. -/
theorem slice_packed_of_holds {width : Nat}
    (holds : ∀ cell ∈ cells, (Storage.packed width).Holds cell) {row : Nat} {value : Bytes}
    (cellAtRow : cells[row]? = some (some value)) :
    Bytes.slice ((cells.take row).countP Option.isSome * width)
      ((cells.take row).countP Option.isSome * width + width) (Cell.packed cells) = value := by
  have takeHolds : ∀ cell ∈ cells.take row, (Storage.packed width).Holds cell :=
    fun cell member => holds cell (List.mem_of_mem_take member)
  have before := length_packed takeHolds
  have valueLength : value.length = width := holds _ (List.mem_of_getElem? cellAtRow)
  rw [← before, packed_split cellAtRow, Bytes.slice, List.append_assoc, List.drop_left' rfl,
    Nat.add_sub_cancel_left]
  exact List.take_left' valueLength

/-- A fixed-width value lies behind the present values before it. -/
private theorem slice_packed {width : Nat} (represents : column.Represents (.packed width) cells)
    {row : Nat} {value : Bytes} (cellAtRow : cells[row]? = some (some value)) :
    Bytes.slice (column.presentBefore row * width) (column.presentBefore row * width + width)
      column.values = value := by
  obtain ⟨inside, -⟩ := List.getElem?_eq_some_iff.mp cellAtRow
  rw [presentBefore_eq_countP (fun _ _ otherAt => represents.isNull_eq otherAt)
    (Nat.le_of_lt inside), represents.values_eq]
  exact slice_packed_of_holds represents.holds cellAtRow

theorem cellAt_eq (represents : column.Represents storage cells)
    (addressable : column.Addressable storage) {row : Nat} {cell : Cell}
    (cellAtRow : cells[row]? = some cell) : column.cellAt storage row = cell := by
  have null := represents.isNull_eq cellAtRow
  have cellHolds := represents.holds cell (List.mem_of_getElem? cellAtRow)
  cases cell with
  | none => simp [cellAt, null]
  | some value =>
    rw [cellAt, null, Option.isNone_some, if_neg Bool.false_ne_true]
    cases storage with
    | text => exact congrArg some (represents.textAt_eq (addressable rfl) cellAtRow)
    | packed width => exact congrArg some (represents.slice_packed cellAtRow)
    | absent => exact cellHolds.elim

/-- Reading the cells of a column that represents a list of cells yields the list. -/
theorem cells_eq (represents : column.Represents storage cells)
    (addressable : column.Addressable storage) : column.cells storage = cells := by
  have rows : column.rowCount.toInt.toNat = cells.length := by
    rw [represents.rowCount_eq, Int.toNat_natCast]
  apply List.ext_getElem
  · rw [Column.cells, List.length_map, List.length_range, rows]
  · intro row _ inside
    have cellAtRow : cells[row]? = some cells[row] := List.getElem?_eq_getElem inside
    simp only [Column.cells, List.getElem_map, List.getElem_range]
    exact represents.cellAt_eq addressable cellAtRow

end Represents

end Columnar.Column
