import Columnar.Proofs.Column.LastRow
import Columnar.Proofs.NullIndex.Values

/-!
# Columns that are being filled

A sort fills a column with rows of another one, removes the last of them now and then, and puts
another row in its place.  The source need not be well formed: null rows of an accepted column of
texts may have bytes of their own, and then the column that is filled is the packed form of no list
of cells.  What the guarded steps read is there all the same: an exact null count, a bitmap that
ends with the byte of the last row, and a place for each row (`Filled`).

None of this depends on what the values are.  So the bitmap and the null count are looked at in
`Column.marks`, which has the rows of a column and no values, and is the packed form of its cells.
-/

namespace Columnar.Column

variable {storage : Storage} {source target column : Column} {nulls : NullIndex}
  {rows first last : Nat}

/-! ## Rows without values -/

/-- The rows of a column without their values. A present row has a value of no bytes. -/
def marks (column : Column) : Column :=
  { column with values := [], offsets := [] }

theorem Counted.marks (counted : column.Counted) : column.marks.Consistent (.packed 0) where
  headerValid := {
    nullCount_nonneg := counted.headerValid.nullCount_nonneg
    nullCount_le := counted.headerValid.nullCount_le
    bitOffset_nonneg := counted.headerValid.bitOffset_nonneg
    validity_covers := counted.headerValid.validity_covers }
  buffersFit := (Int.zero_mul _).symm
  nullCount_eq := counted.nullCount_eq
  textAt_of_isNull := nofun

theorem Counted.of_marks (consistent : column.marks.Consistent storage) : column.Counted where
  headerValid := {
    nullCount_nonneg := consistent.headerValid.nullCount_nonneg
    nullCount_le := consistent.headerValid.nullCount_le
    bitOffset_nonneg := consistent.headerValid.bitOffset_nonneg
    validity_covers := consistent.headerValid.validity_covers }
  nullCount_eq := consistent.nullCount_eq

theorem marks_appendRange (source target : Column) (storage : Storage) (first last : Int)
    (nulls : NullIndex) :
    (source.appendRange storage first last nulls target).marks =
      source.marks.appendRange (.packed 0) first last nulls target.marks := by
  simp only [marks, appendRange, Bytes.slice, List.drop_nil, List.take_nil, List.append_nil]
  rfl

/-! ## Filled columns -/

/-- The null count is exact, the bitmap ends with the byte of the last row's bit, and there is a
place for each row. -/
structure Filled (storage : Storage) (column : Column) : Prop extends Counted column where
  validity_length : column.validity.length =
    Bitmap.byteCount (column.bitIndex column.rowCount.toInt)
  placed : column.Placed storage

namespace Filled

theorem tight (filled : column.Filled storage) : column.Tight where
  toHeaderValid := filled.headerValid
  validity_length := filled.validity_length

theorem empty (storage : Storage) : Column.empty.Filled storage where
  toCounted := ((represents_empty storage).consistent fun _ => by decide).sound.toCounted
  validity_length := rfl
  placed := by cases storage <;> rfl

/-- The rows of a filled column are packed. -/
theorem represents_marks (filled : column.Filled storage) :
    column.marks.Represents (.packed 0) (column.marks.cells (.packed 0)) := by
  have packs := filled.toCounted.marks.packs
  have rowCountEq := packs.rowCount_eq
  exact {
    rowCount_eq := packs.rowCount_eq
    nullCount_eq := packs.nullCount_eq_nulls
    bitOffset_nonneg := packs.headerValid.bitOffset_nonneg
    values_eq := packs.values_eq
    validity_length := by
      rw [← rowCountEq]
      exact filled.validity_length
    validity_bit := packs.validity_bit
    offsets_eq := rfl
    holds := packs.holds }

theorem of_marks {cells : List Cell} (represents : column.marks.Represents (.packed 0) cells)
    (placed : column.Placed storage) : column.Filled storage where
  toCounted := .of_marks (represents.consistent nofun)
  validity_length := by
    have length := represents.validity_length
    rw [← represents.rowCount_eq] at length
    exact length
  placed

/-! ## Removals -/

section Last

variable (filled : column.Filled storage)
  (rowCountEq : column.rowCount.toInt = (rows + 1 : Nat))
include filled rowCountEq

theorem length_values_withoutLast (noText : storage ≠ .text) :
    ((column.withoutLast storage).values.length : Int) =
      storage.width * (rows - (column.withoutLast storage).nullCount.toInt) := by
  have counts := filled.nullCount_eq_add rowCountEq storage
  have length := (placed_of_ne_text noText column).mp filled.placed
  have lastRow : column.rowCount.toInt - 1 = (rows : Nat) := by omega
  have valuesEq : (column.withoutLast storage).values =
      if column.isNull rows then column.values
      else column.values.take (column.values.length - storage.width) := by
    cases storage with
    | text => exact absurd rfl noText
    | packed width => simp only [Column.withoutLast, lastRow]
    | absent => simp only [Column.withoutLast, lastRow]
  rw [filled.nullCount_withoutLast rowCountEq, valuesEq]
  generalize (column.withoutLast storage).clearRows = clear at counts ⊢
  cases null : column.isNull rows with
  | true =>
    have present : (rows : Int) - clear = column.rowCount.toInt - column.nullCount.toInt := by
      rw [null, if_pos rfl] at counts
      omega
    rw [if_pos rfl, length, present]
  | false =>
    have room := width_le_length_values rowCountEq filled.toCounted length null
    have present : column.rowCount.toInt - column.nullCount.toInt = (rows : Int) - clear + 1 := by
      rw [null, if_neg Bool.false_ne_true] at counts
      omega
    rw [present, Int.mul_add, Int.mul_one] at length
    rw [if_neg Bool.false_ne_true, List.length_take, Nat.min_eq_left (Nat.sub_le _ _)]
    omega

theorem placed_withoutLast : (column.withoutLast storage).Placed storage := by
  have shorterRows := rowCount_withoutLast rowCountEq storage
  by_cases text : storage = .text
  · subst text
    show ((column.withoutLast .text).offsets.length : Int) = _
    rw [shorterRows]
    simp only [Column.withoutLast, length_resize, toInt_rowCount_sub_one rowCountEq,
      Int.toNat_natCast]
  · rw [placed_of_ne_text text, shorterRows]
    exact length_values_withoutLast filled rowCountEq text

/-- A column stays filled when its last row is removed. -/
theorem withoutLast : (column.withoutLast storage).Filled storage where
  toCounted := filled.toCounted.withoutLast rowCountEq storage
  validity_length := by
    have length := filled.validity_length
    rw [rowCountEq] at length
    rw [rowCount_withoutLast rowCountEq]
    exact length_validity_withoutLast rowCountEq filled.headerValid.bitOffset_nonneg length
  placed := filled.placed_withoutLast rowCountEq

end Last

/-! ## Copies of rows -/

section Copies

variable (sound : source.Sound storage)
include sound

/-- A copy of all rows is filled. -/
theorem trimmed (nonempty : 0 < source.rowCount.toInt) : source.trimmed.Filled storage where
  headerValid := headerValid_trimmed sound.headerValid nonempty
  nullCount_eq := by
    rw [(sameRows_trimmed sound.headerValid nonempty).clearRows_eq]
    exact sound.nullCount_eq
  validity_length := by
    have length := length_validity_trimmed sound.headerValid nonempty
    have nonneg := sound.headerValid.bitOffset_nonneg
    have sameRows : source.trimmed.rowCount = source.rowCount := rfl
    rw [length, bitIndex, bitIndex, bitIndex, bitOffset_trimmed, sameRows, Bitmap.byteCount,
      Bitmap.byteCount]
    omega
  placed := by
    have placed := sound.buffersFit.placed
    cases storage <;> exact placed

variable (filled : target.Filled storage) (ranks : nulls.Ranks source)
  (nonempty : first < last) (inside : (last : Int) ≤ source.rowCount.toInt)
  (fits : target.rowCount.toInt + (last - first) < 2 ^ 31)
include filled ranks nonempty inside fits

/-- The rows of a range come behind the rows that are there. -/
theorem represents_marks_appendRange :
    (source.appendRange storage first last nulls target).marks.Represents (.packed 0)
      (target.marks.cells (.packed 0) ++
        source.marks.cellsFrom (.packed 0) first (last - first)) := by
  obtain ⟨count, rfl⟩ := Nat.exists_eq_add_of_lt nonempty
  have marked := filled.represents_marks
  have targetRows : target.rowCount.toInt = (target.marks.cells (.packed 0)).length :=
    marked.rowCount_eq
  have rowsInside : first + (count + 1) ≤ source.marks.rowCount.toInt.toNat := by
    have sameRows : source.marks.rowCount = source.rowCount := rfl
    rw [sameRows]
    omega
  have appended := marked.appendRange sound.toCounted.marks nofun nofun ranks (Nat.succ_pos count)
    rowsInside (by omega)
  rw [← marks_appendRange source target storage] at appended
  rw [Nat.add_assoc, Nat.add_sub_cancel_left]
  exact appended

theorem rowCount_appendRange :
    (source.appendRange storage first last nulls target).rowCount.toInt =
      target.rowCount.toInt + (last - first) := by
  have represents := represents_marks_appendRange sound filled ranks nonempty inside fits
  have rows : (source.appendRange storage first last nulls target).rowCount.toInt = _ :=
    represents.rowCount_eq
  have targetRows : target.rowCount.toInt = _ := filled.represents_marks.rowCount_eq
  rw [rows, List.length_append, length_cellsFrom, targetRows]
  omega

/-- Of the rows that are appended as many are present as have a rank in between. -/
theorem present_appendRange :
    (source.appendRange storage first last nulls target).rowCount.toInt -
        (source.appendRange storage first last nulls target).nullCount.toInt =
      target.rowCount.toInt - target.nullCount.toInt +
        (source.presentBefore last - source.presentBefore first : Nat) := by
  have represents := represents_marks_appendRange sound filled ranks nonempty inside fits
  have marked := filled.represents_marks
  have nulls : (source.appendRange storage first last _ target).nullCount.toInt = _ :=
    represents.nullCount_eq
  have targetNulls : target.nullCount.toInt = _ := marked.nullCount_eq
  have counted := source.marks.nulls_cellsFrom (.packed 0) first (last - first)
  have samePresent (row : Nat) : source.marks.presentBefore row = source.presentBefore row := rfl
  have mono := source.presentBefore_mono (Nat.le_of_lt nonempty)
  rw [Nat.add_sub_cancel' (Nat.le_of_lt nonempty), samePresent, samePresent] at counted
  rw [rowCount_appendRange sound filled ranks nonempty inside fits, nulls, Cell.nulls_append,
    targetNulls]
  omega

theorem placed_appendRange (kept : storage ≠ .absent) :
    (source.appendRange storage first last nulls target).Placed storage := by
  have lastLe : last ≤ source.rowCount.toInt.toNat := by omega
  have placed := filled.placed
  cases storage with
  | text =>
    have rowCountEq := rowCount_appendRange sound filled ranks nonempty inside fits
    have counts : (target.offsets.length : Int) = target.rowCount.toInt := placed
    have length := sound.length_offsets
    show ((source.appendRange .text first last nulls target).offsets.length : Int) = _
    rw [rowCountEq]
    simp only [Column.appendRange, List.length_append, Int.toNat_natCast,
      length_movedOffsets (show last ≤ source.offsets.length by omega)]
    omega
  | packed width =>
    have presentEq := present_appendRange sound filled ranks nonempty inside fits
    have length : (target.values.length : Int) =
        width * (target.rowCount.toInt - target.nullCount.toInt) := placed
    have bounded : source.presentBefore last * width ≤ source.values.length :=
      sound.valueStart_le lastLe
    have added : (Bytes.slice (source.presentBefore first * width)
        (source.presentBefore last * width) source.values).length =
          width * (source.presentBefore last - source.presentBefore first) := by
      rw [Bytes.length_slice bounded, ← Nat.sub_mul, Nat.mul_comm]
    show ((source.appendRange (.packed width) first last nulls target).values.length : Int) = _
    rw [presentEq]
    simp only [Column.appendRange, ranks first (by omega), ranks last lastLe, Int.toNat_natCast,
      List.length_append, Storage.width, added]
    rw [Int.natCast_add, length, Int.natCast_mul, ← Int.mul_add]
  | absent => exact absurd rfl kept

/-- A column stays filled when a range of rows is appended. -/
theorem appendRange (kept : storage ≠ .absent) :
    (source.appendRange storage first last nulls target).Filled storage :=
  .of_marks (represents_marks_appendRange sound filled ranks nonempty inside fits)
    (placed_appendRange sound filled ranks nonempty inside fits kept)

end Copies

end Filled

end Columnar.Column
