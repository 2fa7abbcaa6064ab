import Columnar.Column.Slice
import Columnar.Proofs.Bitmap
import Columnar.Proofs.Column.SameRows
import Columnar.Proofs.NullIndex

/-!
# Slices of well-formed columns

Appending rows of a well-formed column appends their cells.  The three block copies are matched
with the three parts of a packed column: values with `packed_cellsFrom`, offsets with
`starts_cellsFrom` and validity bits with the laws of `Bitmap.appendRange`.

The copy of all rows into a column without rows is the exception: it need not be packed, because
it keeps what bytes the source has before its first text.  It is well formed again and has the
same cells, and another copy of it is the same column (`trimmed_trimmed`).
-/

namespace Columnar.Column

variable {storage : Storage} {source : Column}

theorem toInt_add_ofInt {count : Int32} {added : Int}
    (lower : -2 ^ 31 ≤ count.toInt + added) (upper : count.toInt + added < 2 ^ 31) :
    (count + Int32.ofInt added).toInt = count.toInt + added := by
  have size : (Int32.size : Int) = 2 ^ 32 := rfl
  rw [Int32.toInt_add, Int32.toInt_ofInt, Int.add_bmod_bmod, Int.bmod_eq_of_le] <;> omega

/-! ## Texts -/

theorem textRange_eq (consistent : source.Consistent .text)
    (addressable : source.Addressable .text) {first count : Nat} (nonempty : 0 < count)
    (inside : first + count ≤ source.rowCount.toInt.toNat) :
    source.textRange first (first + count) =
      Cell.packed (source.cellsFrom .text first count) := by
  have firstInside : first < source.rowCount.toInt.toNat := by omega
  have start := consistent.sound.toNat_offsetAt firstInside
  rw [consistent.packed_cellsFrom inside, textRange, start]
  congr 1
  split
  next all =>
    have last : first + count = source.rowCount.toInt.toNat := by omega
    rw [last, consistent.sound.valueStart_rowCount, UInt32.toNat_ofNat_of_lt' (addressable rfl)]
  next => exact consistent.sound.toNat_offsetAt (by omega)

theorem movedOffsets_eq_map {first last : Nat} (inside : last ≤ source.offsets.length)
    (valueBytes : Nat) :
    source.movedOffsets first last valueBytes =
      (List.range' first (last - first)).map fun (row : Nat) =>
        UInt32.ofNat valueBytes + (source.offsetAt row - source.offsetAt first) := by
  rw [movedOffsets]
  apply List.ext_getElem
  · simp only [List.length_map, List.length_take, List.length_drop, List.length_range']
    omega
  · intro index _ indexLt
    rw [List.length_map, List.length_range'] at indexLt
    have rowInside : first + index < source.offsets.length := by omega
    have offsetEq : source.offsets[first + index] = source.offsetAt (first + index) := by
      rw [offsetAt, List.getElem?_eq_getElem rowInside, Option.getD_some]
    simp only [List.getElem_map, List.getElem_take, List.getElem_drop, List.getElem_range',
      Nat.one_mul, offsetEq]

theorem length_movedOffsets {first last : Nat} (inside : last ≤ source.offsets.length)
    (valueBytes : Nat) : (source.movedOffsets first last valueBytes).length = last - first := by
  rw [movedOffsets_eq_map inside, List.length_map, List.length_range']

theorem movedOffsets_eq (consistent : source.Consistent .text) {first count : Nat}
    (inside : first + count ≤ source.rowCount.toInt.toNat) (valueBytes : Nat) :
    source.movedOffsets first (first + count) valueBytes =
      Cell.starts valueBytes (source.cellsFrom .text first count) := by
  have length := consistent.sound.length_offsets
  rw [consistent.starts_cellsFrom inside, movedOffsets_eq_map (by omega), Nat.add_sub_cancel_left]
  apply List.map_congr_left
  intro row member
  obtain ⟨firstLe, rowLt⟩ := List.mem_range'_1.mp member
  have rowInside : row < source.rowCount.toInt.toNat := by omega
  have rowStart := consistent.sound.toNat_offsetAt rowInside
  have firstStart := consistent.sound.toNat_offsetAt (Nat.lt_of_le_of_lt firstLe rowInside)
  have offsetLe : source.offsetAt first ≤ source.offsetAt row := by
    rw [UInt32.le_iff_toNat_le, rowStart, firstStart]
    exact consistent.sound.valueStart_mono firstLe
  have moved : source.offsetAt row - source.offsetAt first =
      UInt32.ofNat (source.valueStart .text row - source.valueStart .text first) := by
    have offsetLt := (source.offsetAt row).toNat_lt
    rw [rowStart] at offsetLt
    have fits := Nat.lt_of_le_of_lt (Nat.sub_le _ (source.valueStart .text first)) offsetLt
    apply UInt32.toNat_inj.mp
    rw [UInt32.toNat_sub_of_le _ _ offsetLe, rowStart, firstStart,
      UInt32.toNat_ofNat_of_lt' fits]
  rw [moved, UInt32.ofNat_add]

/-! ## Ranges of rows -/

namespace Represents

variable {cells : List Cell} {target : Column} {nulls : NullIndex} {first count : Nat}

private theorem values_appendRange (represents : target.Represents storage cells)
    (consistent : source.Consistent storage) (addressable : source.Addressable storage) (ranks : nulls.Ranks source) (nonempty : 0 < count)
    (inside : first + count ≤ source.rowCount.toInt.toNat) :
    (source.appendRange storage first (first + count : Nat) nulls target).values =
      Cell.packed (cells ++ source.cellsFrom storage first count) := by
  rw [Cell.packed_append, ← represents.values_eq]
  simp only [Column.appendRange]
  congr 1
  have firstRank := ranks first (by omega)
  have lastRank := ranks (first + count) inside
  cases storage with
  | text => exact textRange_eq consistent addressable nonempty inside
  | packed width =>
    rw [firstRank, lastRank, consistent.packed_cellsFrom inside]
    rfl
  | absent =>
    rw [consistent.packed_cellsFrom inside]
    simp [Storage.width, valueStart]

private theorem offsets_appendRange (represents : target.Represents storage cells)
    (consistent : source.Consistent storage)
    (inside : first + count ≤ source.rowCount.toInt.toNat) :
    (source.appendRange storage first (first + count : Nat) nulls target).offsets =
      storage.offsets (cells ++ source.cellsFrom storage first count) := by
  have offsetsEq := represents.offsets_eq
  cases storage with
  | text =>
    simp only [Column.appendRange, Storage.offsets, Cell.starts_append, Int.toNat_natCast]
    rw [offsetsEq, movedOffsets_eq consistent inside, represents.values_eq, Nat.zero_add]
    rfl
  | packed width => exact offsetsEq
  | absent => exact offsetsEq

private theorem validity_appendRange (consistent : source.Consistent storage)
    (represents : target.Represents storage cells) :
    (source.appendRange storage first (first + count : Nat) nulls target).validity =
      Bitmap.appendRange source.validity (source.bitIndex 0 : Nat) first (first + count : Nat)
        (target.bitIndex cells.length : Nat) target.validity := by
  have base := consistent.headerValid.bitIndex_zero
  have position := bitIndex_of_nonneg represents.bitOffset_nonneg cells.length
  have sourceNonneg := consistent.headerValid.bitOffset_nonneg
  have targetNonneg := represents.bitOffset_nonneg
  have rowCountEq := represents.rowCount_eq
  have baseEq : source.bitOffset.toInt = (source.bitIndex 0 : Nat) := by
    omega
  have positionEq : target.bitOffset.toInt + target.rowCount.toInt =
      (target.bitIndex cells.length : Nat) := by
    omega
  simp only [Column.appendRange, appendBits]
  rw [baseEq, positionEq]

private theorem source_covers (consistent : source.Consistent storage) (nonempty : 0 < count)
    (inside : first + count ≤ source.rowCount.toInt.toNat) :
    source.bitIndex 0 + (first + count) ≤ 8 * source.validity.length := by
  have covered := consistent.headerValid.bitIndex_rowCount_le (by omega)
  have base := consistent.headerValid.bitIndex_zero
  have nonneg := consistent.headerValid.bitOffset_nonneg
  rw [bitIndex] at covered
  omega

/-- The bits that are copied say which of the cells are present. -/
private theorem bit_source (consistent : source.Consistent storage) {offset : Nat}
    (inside : first + offset < source.rowCount.toInt.toNat) :
    Bitmap.bit source.validity (source.bitIndex 0 + first + offset) =
      (source.cellAt storage (first + offset)).isSome := by
  have position : source.bitIndex 0 + first + offset = source.bitIndex (first + offset : Nat) := by
    rw [consistent.headerValid.bitIndex_eq, consistent.headerValid.bitIndex_zero, Nat.add_assoc]
  have null := consistent.isNull_eq inside
  have noneIff := source.isNull_cellAt storage (first + offset)
  rw [null] at noneIff
  rw [position, ← Option.not_isNone, noneIff, Bool.not_not]

/-- Appending rows of a well-formed column appends their cells. -/
theorem appendRange (represents : target.Represents storage cells)
    (consistent : source.Consistent storage) (addressable : source.Addressable storage)
    (kept : storage ≠ .absent)
    (ranks : nulls.Ranks source) (nonempty : 0 < count)
    (inside : first + count ≤ source.rowCount.toInt.toNat)
    (rowsFit : cells.length + count < 2 ^ 31) :
    (source.appendRange storage first (first + count : Nat) nulls target).Represents storage
      (cells ++ source.cellsFrom storage first count) where
  rowCount_eq := by
    have rowCountEq := represents.rowCount_eq
    have added : ((first + count : Nat) : Int) - first = count := by omega
    simp only [Column.appendRange, added]
    rw [toInt_add_ofInt (by omega) (by omega), rowCountEq, List.length_append, length_cellsFrom]
    omega
  nullCount_eq := by
    have nullCountEq := represents.nullCount_eq
    have nullsLe := Cell.nulls_le_length cells
    have counted := source.nulls_cellsFrom storage first count
    have nullsAdded := Cell.nulls_le_length (source.cellsFrom storage first count)
    rw [length_cellsFrom] at nullsAdded
    simp only [Column.appendRange]
    rw [ranks first (by omega), ranks (first + count) inside, Cell.nulls_append,
      toInt_add_ofInt (by omega) (by omega)]
    omega
  bitOffset_nonneg := represents.bitOffset_nonneg
  values_eq := represents.values_appendRange consistent addressable ranks nonempty inside
  validity_length := by
    have covered := source_covers consistent nonempty inside
    have index := bitIndex_of_nonneg represents.bitOffset_nonneg cells.length
    rw [validity_appendRange consistent represents,
      Bitmap.length_appendRange (Nat.le_add_right first count) covered represents.validity_length,
      Nat.add_sub_cancel_left, List.length_append, length_cellsFrom, index, Nat.add_assoc]
    exact congrArg Bitmap.byteCount
      (bitIndex_of_nonneg represents.bitOffset_nonneg (cells.length + count)).symm
  validity_bit := by
    intro row cell cellAtRow
    have index := bitIndex_of_nonneg represents.bitOffset_nonneg
    have rowIndex : (source.appendRange storage first (first + count : Nat) nulls target).bitIndex
        row = target.bitIndex row := rfl
    rw [rowIndex, validity_appendRange consistent represents]
    by_cases old : row < cells.length
    · rw [List.getElem?_append_left old] at cellAtRow
      have covered : target.bitIndex cells.length ≤ 8 * target.validity.length := by
        rw [represents.validity_length]
        exact Bitmap.le_mul_byteCount _
      rw [Bitmap.bit_appendRange_of_lt covered
        (by rw [index, index]; exact Nat.add_lt_add_left old _)]
      exact represents.validity_bit row cell cellAtRow
    · obtain ⟨offset, rfl⟩ := Nat.exists_eq_add_of_le (Nat.le_of_not_lt old)
      rw [List.getElem?_append_right (Nat.le_add_right _ _), Nat.add_sub_cancel_left] at cellAtRow
      obtain ⟨offsetLt, -⟩ := List.getElem?_eq_some_iff.mp cellAtRow
      rw [length_cellsFrom] at offsetLt
      rw [getElem?_cellsFrom offsetLt, Option.some.injEq] at cellAtRow
      have position : target.bitIndex (cells.length + offset : Nat) =
          target.bitIndex cells.length + offset := by
        rw [index, index, Nat.add_assoc]
      rw [position, Bitmap.bit_appendRange_add (Nat.le_add_right first count)
        represents.validity_length (by omega), ← cellAtRow]
      exact bit_source consistent (by omega)
  offsets_eq := represents.offsets_appendRange consistent inside
  holds := by
    intro cell member
    rcases List.mem_append.mp member with old | new
    · exact represents.holds cell old
    · obtain ⟨row, rowFound, rfl⟩ := List.mem_map.mp new
      have rowLt := (List.mem_range'_1.mp rowFound).2
      exact consistent.holds_cellAt kept (by omega)

end Represents

theorem appendRows_of_kept {type : ValueType} (kept : type.storage ≠ .absent)
    (source target : Column) (first last : Int) (nulls : NullIndex) :
    source.appendRows type first last nulls target =
      if last ≤ first ∨ source.rowCount = 0 then .ok target
      else if last - first = source.rowCount.toInt ∧ target.rowCount = 0 then .ok source.trimmed
      else .ok (source.appendRange type.storage first last nulls target) := by
  rw [appendRows]
  split
  next absent => exact absurd absent kept
  next => rfl

/-- Rows are appended as three block copies, unless there are none or they are all. -/
theorem appendRows_eq_appendRange {type : ValueType} {target : Column} {first count : Nat}
    (kept : type.storage ≠ .absent) (nonempty : 0 < count)
    (inside : first + count ≤ source.rowCount.toInt.toNat)
    (partialCopy : count < source.rowCount.toInt.toNat ∨ target.rowCount ≠ 0)
    (nulls : NullIndex) :
    source.appendRows type first (first + count : Nat) nulls target =
      .ok (source.appendRange type.storage first (first + count : Nat) nulls target) := by
  have someRows : source.rowCount ≠ 0 := ne_zero_of_toInt_pos (by omega)
  have notEmpty : ¬(((first + count : Nat) : Int) ≤ first ∨ source.rowCount = 0) := by
    rintro (behind | noRows)
    · omega
    · exact someRows noRows
  have notWhole : ¬(((first + count : Nat) : Int) - first = source.rowCount.toInt ∧
      target.rowCount = 0) := by
    rintro ⟨all, noRows⟩
    rcases partialCopy with fewer | rows
    · omega
    · exact rows noRows
  rw [appendRows_of_kept kept, if_neg notEmpty, if_neg notWhole]

/-! ## Copies of all rows -/

section Whole

theorem appendRows_eq_trimmed {type : ValueType} {target : Column}
    (kept : type.storage ≠ .absent) (nonempty : 0 < source.rowCount.toInt)
    (noRows : target.rowCount = 0) (nulls : NullIndex) :
    source.appendRows type (0 : Nat) (source.rowCount.toInt.toNat : Nat) nulls target =
      .ok source.trimmed := by
  have someRows := ne_zero_of_toInt_pos nonempty
  have notEmpty : ¬((source.rowCount.toInt.toNat : Int) ≤ (0 : Nat) ∨ source.rowCount = 0) := by
    rintro (behind | none)
    · omega
    · exact someRows none
  have whole : (source.rowCount.toInt.toNat : Int) - (0 : Nat) = source.rowCount.toInt ∧
      target.rowCount = 0 := ⟨by omega, noRows⟩
  rw [appendRows_of_kept kept, if_neg notEmpty, if_pos whole]

theorem bitOffset_trimmed (source : Column) :
    source.trimmed.bitOffset.toInt = source.bitOffset.toInt % 8 := by
  have size : (Int32.size : Int) = 2 ^ 32 := rfl
  rw [trimmed, Int32.toInt_ofInt, Int.bmod_eq_of_le] <;> omega

/-- A column whose bit offset is inside the first byte and whose bitmap has no byte to spare has
nothing to trim. -/
theorem trimmed_eq_self {column : Column} (nonneg : 0 ≤ column.bitOffset.toInt)
    (inFirstByte : column.bitOffset.toInt < 8)
    (length : column.validity.length =
      Bitmap.byteCount (column.bitIndex column.rowCount.toInt)) :
    column.trimmed = column := by
  have first : column.bitIndex 0 / 8 = 0 := by
    rw [bitIndex]
    omega
  have offset : column.bitOffset.toInt % 8 = column.bitOffset.toInt := by omega
  rw [trimmed, Bitmap.span, first, ← length, Bytes.slice_zero_length, offset, Int32.ofInt_toInt]

/-- A packed column that starts at the first bit has nothing to trim. -/
theorem Represents.trimmed_eq {cells : List Cell} {column : Column}
    (represents : column.Represents storage cells) (bitOffsetEq : column.bitOffset = 0) :
    column.trimmed = column := by
  apply trimmed_eq_self
  · exact represents.bitOffset_nonneg
  · rw [bitOffsetEq, Int32.toInt_zero]
    decide
  · rw [represents.rowCount_eq]
    exact represents.validity_length

variable (valid : source.HeaderValid) (nonempty : 0 < source.rowCount.toInt)
include valid nonempty

theorem length_validity_trimmed :
    source.trimmed.validity.length =
      Bitmap.byteCount (source.bitIndex source.rowCount.toInt) - source.bitIndex 0 / 8 := by
  exact Bitmap.length_span (valid.bitIndex_rowCount_le nonempty)

theorem trimmed_trimmed : source.trimmed.trimmed = source.trimmed := by
  have offset := source.bitOffset_trimmed
  have length := length_validity_trimmed valid nonempty
  have nonneg := valid.bitOffset_nonneg
  have rows : source.trimmed.rowCount = source.rowCount := rfl
  apply trimmed_eq_self
  · omega
  · omega
  · rw [length, bitIndex, bitIndex, bitIndex, rows, offset, Bitmap.byteCount, Bitmap.byteCount]
    omega

/-- The bits of the rows move down by whole bytes. -/
theorem bit_trimmed {row : Nat} (inside : row < source.rowCount.toInt.toNat) :
    Bitmap.bit source.trimmed.validity (source.trimmed.bitIndex row) =
      Bitmap.bit source.validity (source.bitIndex row) := by
  have base := valid.bitIndex_zero
  have offset := source.bitOffset_trimmed
  have nonneg := valid.bitOffset_nonneg
  have index : source.trimmed.bitIndex row = source.bitIndex 0 % 8 + row := by
    rw [bitIndex, offset]
    omega
  have sourceIndex : source.bitIndex row = source.bitIndex 0 / 8 * 8 +
      (source.bitIndex 0 % 8 + row) := by
    rw [valid.bitIndex_eq]
    omega
  have beforeEnd : source.bitIndex 0 / 8 * 8 + (source.bitIndex 0 % 8 + row) <
      source.bitIndex source.rowCount.toInt := by
    rw [← sourceIndex, bitIndex, bitIndex]
    omega
  rw [index, sourceIndex]
  exact Bitmap.bit_span source.validity beforeEnd

theorem headerValid_trimmed : source.trimmed.HeaderValid where
  nullCount_nonneg := valid.nullCount_nonneg
  nullCount_le := valid.nullCount_le
  bitOffset_nonneg := by
    rw [bitOffset_trimmed]
    omega
  validity_covers := by
    intro _
    have length := length_validity_trimmed valid nonempty
    have base := valid.bitIndex_zero
    have nonneg := valid.bitOffset_nonneg
    have rows : source.trimmed.rowCount = source.rowCount := rfl
    rw [bitIndex, Bitmap.byteCount] at length
    rw [bitOffset_trimmed, rows]
    omega

theorem sameRows_trimmed : source.SameRows source.trimmed where
  first_valid := valid
  second_valid := headerValid_trimmed valid nonempty
  rowCount_eq := rfl
  nullCount_eq := rfl
  values_eq := rfl
  offsets_eq := rfl
  bit_eq := fun _ inside => bit_trimmed valid nonempty inside

theorem consistent_trimmed (consistent : source.Consistent storage) :
    source.trimmed.Consistent storage :=
  (sameRows_trimmed valid nonempty).consistent consistent

theorem cells_trimmed (storage : Storage) : source.trimmed.cells storage = source.cells storage :=
  (sameRows_trimmed valid nonempty).cells_eq storage

/-- What is packed stays packed. -/
theorem represents_trimmed {cells : List Cell} (represents : source.Represents storage cells) :
    source.trimmed.Represents storage cells where
  rowCount_eq := represents.rowCount_eq
  nullCount_eq := represents.nullCount_eq
  bitOffset_nonneg := (headerValid_trimmed valid nonempty).bitOffset_nonneg
  values_eq := represents.values_eq
  validity_length := by
    have length := length_validity_trimmed valid nonempty
    have nonneg := represents.bitOffset_nonneg
    rw [length, represents.rowCount_eq, bitIndex, bitIndex, bitIndex, bitOffset_trimmed,
      Bitmap.byteCount, Bitmap.byteCount]
    omega
  validity_bit := by
    intro row cell cellAtRow
    obtain ⟨inside, -⟩ := List.getElem?_eq_some_iff.mp cellAtRow
    have rowCountEq := represents.rowCount_eq
    rw [bit_trimmed valid nonempty (by omega)]
    exact represents.validity_bit row cell cellAtRow
  offsets_eq := represents.offsets_eq
  holds := represents.holds

end Whole

end Columnar.Column
