import Columnar.Column.Basic

/-!
# Columns as lists of cells

What a column means is a list of cells, one for each row: the bytes of a present value, or
nothing.  `Column.Represents` says that a column is the packed form of such a list.

The main statements follow the operations: appending a cell, removing the last row and the test
for null rows do to the list of cells what their names say.  They hold as long as the counts stay
inside their 32-bit words.
-/

namespace Columnar

/-- One row of a column: the bytes of its value, or nothing where it is null. -/
abbrev Cell := Option Bytes

namespace Cell

/-- The bytes that a cell takes among the values. -/
def bytes (cell : Cell) : Bytes :=
  cell.getD []

/-- The present values of a list of cells, one after the other. -/
def packed (cells : List Cell) : Bytes :=
  cells.flatMap bytes

/-- The number of null cells. -/
def nulls (cells : List Cell) : Nat :=
  cells.countP Option.isNone

/-- Where the bytes of each cell start when the first one starts at `position`. -/
def starts : (position : Nat) → List Cell → List UInt32
  | _, [] => []
  | position, cell :: rest => UInt32.ofNat position :: starts (position + cell.bytes.length) rest

@[simp] theorem packed_nil : packed [] = [] := rfl

@[simp] theorem packed_append (front back : List Cell) :
    packed (front ++ back) = packed front ++ packed back := by
  simp [packed]

@[simp] theorem packed_singleton (cell : Cell) : packed [cell] = cell.bytes := by
  simp [packed]

@[simp] theorem nulls_append (front back : List Cell) :
    nulls (front ++ back) = nulls front + nulls back := by
  simp [nulls]

theorem nulls_le_length (cells : List Cell) : nulls cells ≤ cells.length :=
  List.countP_le_length

theorem countP_isSome_add_nulls (cells : List Cell) :
    cells.countP Option.isSome + nulls cells = cells.length := by
  induction cells with
  | nil => rfl
  | cons cell rest ih =>
    rw [nulls] at ih ⊢
    rw [List.countP_cons, List.countP_cons, List.length_cons]
    cases cell <;> simp <;> omega

@[simp] theorem length_starts (position : Nat) (cells : List Cell) :
    (starts position cells).length = cells.length := by
  induction cells generalizing position with
  | nil => rfl
  | cons cell rest ih => simp [starts, ih]

theorem starts_append (position : Nat) (front back : List Cell) :
    starts position (front ++ back) =
      starts position front ++ starts (position + (packed front).length) back := by
  induction front generalizing position with
  | nil => simp [starts]
  | cons cell rest ih =>
    have lengthEq : (packed (cell :: rest)).length = cell.bytes.length + (packed rest).length := by
      simp [packed]
    rw [List.cons_append, starts, starts, ih, lengthEq, Nat.add_assoc, List.cons_append]

end Cell

namespace Storage

/-- Whether a column of the storage can hold a cell: fixed-width values have their width. -/
def Holds : Storage → Cell → Prop
  | .packed width, some value => value.length = width
  | .text, some _ => True
  | .absent, some _ => False
  | _, none => True

/-- The offsets of a column of the storage: one per row for texts, none otherwise. -/
def offsets : Storage → List Cell → List UInt32
  | .text, cells => Cell.starts 0 cells
  | _, _ => []

end Storage

namespace Column

/-- Appends a row that is given as a cell. -/
def appendCell (storage : Storage) (cell : Cell) (column : Column) : Column :=
  match storage, cell with
  | .text, some value => column.appendText value
  | .text, none => column.appendTextNull
  | _, some value => column.appendValue value
  | _, none => column.appendNull

section Fields

variable (storage : Storage) (cell : Cell) (column : Column)

theorem rowCount_appendCell :
    (column.appendCell storage cell).rowCount = column.rowCount + 1 := by
  cases storage <;> cases cell <;> rfl

theorem nullCount_appendCell :
    (column.appendCell storage cell).nullCount =
      if cell.isNone then column.nullCount + 1 else column.nullCount := by
  cases storage <;> cases cell <;> rfl

theorem bitOffset_appendCell :
    (column.appendCell storage cell).bitOffset = column.bitOffset := by
  cases storage <;> cases cell <;> rfl

theorem values_appendCell :
    (column.appendCell storage cell).values = column.values ++ cell.bytes := by
  have noBytes : Cell.bytes none = [] := rfl
  cases cell with
  | none => cases storage <;> rw [noBytes, List.append_nil] <;> rfl
  | some value => cases storage <;> rfl

theorem validity_appendCell :
    (column.appendCell storage cell).validity = (column.mark cell.isSome).validity := by
  cases storage <;> cases cell <;> rfl

theorem offsets_appendCell :
    (column.appendCell storage cell).offsets =
      match storage with
      | .text => column.offsets ++ [UInt32.ofNat column.values.length]
      | _ => column.offsets := by
  cases storage <;> cases cell <;> rfl

end Fields

/-- A column is the packed form of a list of cells, with no byte to spare in its bitmap. -/
structure Represents (storage : Storage) (cells : List Cell) (column : Column) : Prop where
  rowCount_eq : column.rowCount.toInt = cells.length
  nullCount_eq : column.nullCount.toInt = Cell.nulls cells
  bitOffset_nonneg : 0 ≤ column.bitOffset.toInt
  values_eq : column.values = Cell.packed cells
  validity_length : column.validity.length = Bitmap.byteCount (column.bitIndex cells.length)
  validity_bit : ∀ (row : Nat) (cell : Cell), cells[row]? = some cell →
    Bitmap.bit column.validity (column.bitIndex row) = cell.isSome
  offsets_eq : column.offsets = storage.offsets cells
  holds : ∀ cell ∈ cells, storage.Holds cell

/-- The values lie where offsets of texts, which are 32-bit words, can point. No other storage has
offsets. -/
def Addressable (storage : Storage) (column : Column) : Prop :=
  storage = .text → column.values.length < UInt32.size

theorem Addressable.mono {storage : Storage} {column other : Column}
    (addressable : column.Addressable storage)
    (valuesLe : other.values.length ≤ column.values.length) : other.Addressable storage :=
  fun text => Nat.lt_of_le_of_lt valuesLe (addressable text)

theorem represents_empty (storage : Storage) : empty.Represents storage [] where
  rowCount_eq := rfl
  nullCount_eq := rfl
  bitOffset_nonneg := Int.le_refl 0
  values_eq := rfl
  validity_length := rfl
  validity_bit := by simp
  offsets_eq := by cases storage <;> rfl
  holds := by simp

private theorem toInt_add_one {count : Int32} (bounded : count.toInt < Int32.maxValue.toInt) :
    (count + 1).toInt = count.toInt + 1 := by
  have lower := count.le_toInt
  have greatest : Int32.maxValue.toInt = 2147483647 := rfl
  have one : (1 : Int32).toInt = 1 := rfl
  rw [Int32.toInt_add, one, Int.bmod_eq_of_le] <;> omega

theorem toInt_sub_one {count : Int32} (positive : 0 < count.toInt) :
    (count - 1).toInt = count.toInt - 1 := by
  have upper := count.toInt_lt
  have one : (1 : Int32).toInt = 1 := rfl
  rw [Int32.toInt_sub, one, Int.bmod_eq_of_le] <;> omega

theorem bitIndex_of_nonneg {column : Column} (nonneg : 0 ≤ column.bitOffset.toInt) (row : Nat) :
    column.bitIndex row = column.bitOffset.toInt.toNat + row := by
  unfold bitIndex
  omega

namespace Represents

variable {storage : Storage} {cells : List Cell} {column : Column}

private theorem bitIndex_rowCount (represents : column.Represents storage cells) :
    column.bitIndex column.rowCount.toInt = column.bitOffset.toInt.toNat + cells.length := by
  rw [represents.rowCount_eq, bitIndex_of_nonneg represents.bitOffset_nonneg]

/-- Marking one more row extends the bitmap by its bit, and by its byte where it needs one. -/
private theorem length_mark (represents : column.Represents storage cells) (present : Bool) :
    (column.mark present).validity.length =
      Bitmap.byteCount ((column.mark present).bitIndex (cells.length + 1 : Nat)) := by
  have index := represents.bitIndex_rowCount
  have length := represents.validity_length
  have nonneg := represents.bitOffset_nonneg
  rw [bitIndex_of_nonneg nonneg] at length
  have marked : ((column.mark present).bitIndex (cells.length + 1 : Nat)) =
      column.bitOffset.toInt.toNat + (cells.length + 1) := bitIndex_of_nonneg nonneg _
  rw [marked]
  simp only [mark, Bitmap.length_put, Bitmap.byteCount, index, length]
  omega

private theorem bit_mark (represents : column.Represents storage cells) (present : Bool)
    (added : Cell) (addedIsSome : added.isSome = present) (row : Nat) (cell : Cell)
    (cellAtRow : (cells ++ [added])[row]? = some cell) :
    Bitmap.bit (column.mark present).validity ((column.mark present).bitIndex row) =
      cell.isSome := by
  have index := represents.bitIndex_rowCount
  have nonneg := represents.bitOffset_nonneg
  have rowIndex : (column.mark present).bitIndex row = column.bitOffset.toInt.toNat + row :=
    bitIndex_of_nonneg nonneg row
  rw [rowIndex]
  simp only [mark, Bitmap.bit_put, index]
  by_cases inside : row < cells.length
  · rw [List.getElem?_append_left inside] at cellAtRow
    have bit := represents.validity_bit row cell cellAtRow
    rw [bitIndex_of_nonneg nonneg] at bit
    rw [if_neg (by omega), bit]
  · rw [List.getElem?_append_right (Nat.le_of_not_lt inside)] at cellAtRow
    have last : row = cells.length := by
      have bounded : row - cells.length < 1 := by
        by_cases zero : row - cells.length = 0
        · omega
        · simp [zero] at cellAtRow
      omega
    subst last
    simp only [Nat.sub_self, List.getElem?_cons_zero, Option.some.injEq] at cellAtRow
    rw [if_pos rfl, ← cellAtRow, addedIsSome]

/-- Appending a cell appends it to the list of cells. -/
theorem appendCell (represents : column.Represents storage cells) {cell : Cell}
    (cellHolds : storage.Holds cell) (rowsFit : (cells.length : Int) < Int32.maxValue.toInt) :
    (column.appendCell storage cell).Represents storage (cells ++ [cell]) where
  rowCount_eq := by
    have rowCountEq := represents.rowCount_eq
    rw [rowCount_appendCell, toInt_add_one (by omega), rowCountEq, List.length_append,
      List.length_singleton]
    omega
  nullCount_eq := by
    have nullCountEq := represents.nullCount_eq
    have nullsLe := Cell.nulls_le_length cells
    rw [nullCount_appendCell, Cell.nulls_append]
    cases cell with
    | none =>
      have one : Cell.nulls [none] = 1 := rfl
      rw [Option.isNone_none, if_pos rfl, toInt_add_one (by omega), nullCountEq, one]
      omega
    | some value =>
      have zero : Cell.nulls [some value] = 0 := rfl
      rw [Option.isNone_some, if_neg Bool.false_ne_true, nullCountEq, zero, Nat.add_zero]
  bitOffset_nonneg := by
    rw [bitOffset_appendCell]
    exact represents.bitOffset_nonneg
  values_eq := by
    rw [values_appendCell, represents.values_eq, Cell.packed_append, Cell.packed_singleton]
  validity_length := by
    rw [validity_appendCell, List.length_append, List.length_singleton, represents.length_mark,
      bitIndex, bitIndex, bitOffset_appendCell]
    rfl
  validity_bit := by
    intro row other otherAt
    rw [validity_appendCell, bitIndex, bitOffset_appendCell]
    exact represents.bit_mark cell.isSome cell rfl row other otherAt
  offsets_eq := by
    rw [offsets_appendCell, represents.offsets_eq, represents.values_eq]
    cases storage with
    | text => simp [Storage.offsets, Cell.starts_append, Cell.starts]
    | packed width => rfl
    | absent => rfl
  holds := by
    intro other member
    rcases List.mem_append.mp member with old | new
    · exact represents.holds other old
    · rw [List.mem_singleton.mp new]
      exact cellHolds

/-- Appending items one by one appends their cells, if each single append does. -/
theorem appendEach {α : Type} {append : α → Column → Column} {cellOf : α → Cell} {items : List α}
    (appendEq : ∀ item ∈ items, ∀ column : Column,
      append item column = column.appendCell storage (cellOf item))
    (cellHolds : ∀ item ∈ items, storage.Holds (cellOf item))
    (represents : column.Represents storage cells)
    (rowsFit : ((cells.length + items.length : Nat) : Int) ≤ Int32.maxValue.toInt) :
    (column.appendEach append items).Represents storage (cells ++ items.map cellOf) := by
  induction items generalizing cells column with
  | nil =>
    rw [List.map_nil, List.append_nil]
    exact represents
  | cons item rest ih =>
    rw [List.length_cons] at rowsFit
    have longer := represents.appendCell (cellHolds item List.mem_cons_self) (by omega)
    rw [← appendEq item List.mem_cons_self] at longer
    have appended := ih (fun other member => appendEq other (List.mem_cons_of_mem item member))
      (fun other member => cellHolds other (List.mem_cons_of_mem item member)) longer (by
        rw [List.length_append, List.length_singleton]
        omega)
    rw [List.append_assoc] at appended
    exact appended

/-- A row of a column that counts its nulls rightly is null exactly when its cell is. -/
theorem isNull_eq (represents : column.Represents storage cells) {row : Nat} {cell : Cell}
    (cellAtRow : cells[row]? = some cell) : column.isNull row = cell.isNone := by
  obtain ⟨inside, -⟩ := List.getElem?_eq_some_iff.mp cellAtRow
  have rowCountEq := represents.rowCount_eq
  have nullCountEq := represents.nullCount_eq
  have length := represents.validity_length
  have index := bitIndex_of_nonneg represents.bitOffset_nonneg cells.length
  have notBehind : ¬(column.rowCount.toInt ≤ row ∨ column.validity = []) := by
    rintro (behind | noBitmap)
    · omega
    · rw [noBitmap, index, Bitmap.byteCount, List.length_nil] at length
      omega
  rw [isNull, if_neg notBehind, represents.validity_bit row cell cellAtRow]
  by_cases noNulls : column.nullCount = 0
  · rw [if_pos noNulls]
    have zero : (0 : Int32).toInt = 0 := rfl
    rw [noNulls, zero] at nullCountEq
    have noneNull : Cell.nulls cells = 0 := by omega
    have present := List.countP_eq_zero.mp noneNull cell (List.mem_of_getElem? cellAtRow)
    exact (Bool.eq_false_iff.mpr present).symm
  · rw [if_neg noNulls]
    cases cell <;> rfl

end Represents

end Column

end Columnar
