import Columnar.Column.View
import Columnar.Proofs.Bitmap
import Columnar.Proofs.Column.Layout

/-!
# Where the cells of a column lie

A well-formed column need not be the packed form of its cells: its bitmap may have bytes to spare,
and its first text may start behind bytes that belong to no row.  Still the bytes of any range of
rows are one range of the values.  `Column.valueStart` says where the range of a row starts, for
every storage alike, and `packed_cellsFrom` and `starts_cellsFrom` say what lies there.
-/

namespace Columnar.Column

variable {storage : Storage} {column : Column}

/-! ## Bits of rows -/

namespace HeaderValid

variable (valid : column.HeaderValid)
include valid

theorem bitIndex_eq (row : Nat) : column.bitIndex row = column.bitOffset.toInt.toNat + row :=
  bitIndex_of_nonneg valid.bitOffset_nonneg row

theorem bitIndex_zero : column.bitIndex 0 = column.bitOffset.toInt.toNat :=
  valid.bitIndex_eq 0

theorem bitIndex_rowCount_le (nonempty : 0 < column.rowCount.toInt) :
    column.bitIndex column.rowCount.toInt ≤ 8 * column.validity.length := by
  have covered := valid.validity_covers nonempty
  rw [bitIndex]
  omega

end HeaderValid

/-! ## Well-formed columns -/

/-- A well-formed column, said of its storage. -/
structure Consistent (storage : Storage) (column : Column) : Prop where
  headerValid : column.HeaderValid
  buffersFit : column.BuffersFit storage
  nullCount_eq : column.nullCount.toInt = column.clearRows
  textAt_of_isNull : storage = .text → ∀ row < column.rowCount.toInt.toNat,
    column.isNull row = true → column.textAt row = []

theorem wellFormed_iff (type : ValueType) (column : Column) :
    column.WellFormed type ↔ column.Consistent type.storage := by
  constructor
  · intro wellFormed
    obtain ⟨headerValid, buffersFit⟩ :=
      (layoutError?_eq_none_iff type column).mp wellFormed.layoutError?_eq_none
    exact ⟨headerValid, buffersFit, wellFormed.nullCount_eq, wellFormed.textAt_of_isNull⟩
  · intro consistent
    have noError := (layoutError?_eq_none_iff type column).mpr
      ⟨consistent.headerValid, consistent.buffersFit⟩
    exact ⟨noError, consistent.nullCount_eq, consistent.textAt_of_isNull⟩

/-- Where the bytes of a row's cell start among the values. Behind the last row they end. -/
def valueStart : (storage : Storage) → (column : Column) → (row : Nat) → Nat
  | .text, column, row => (column.offsets[row]?.map UInt32.toNat).getD column.values.length
  | .packed width, column, row => column.presentBefore row * width
  | .absent, _, _ => 0

/-- The cells of `count` rows, the first of them `first`. -/
def cellsFrom (storage : Storage) (column : Column) (first count : Nat) : List Cell :=
  (List.range' first count).map fun (row : Nat) => column.cellAt storage row

theorem cells_eq_cellsFrom (storage : Storage) (column : Column) :
    column.cells storage = column.cellsFrom storage 0 column.rowCount.toInt.toNat := by
  rw [cells, cellsFrom, List.range_eq_range']

@[simp] theorem length_cellsFrom (storage : Storage) (column : Column) (first count : Nat) :
    (column.cellsFrom storage first count).length = count := by
  rw [cellsFrom, List.length_map, List.length_range']

theorem cellsFrom_succ (storage : Storage) (column : Column) (first count : Nat) :
    column.cellsFrom storage first (count + 1) =
      column.cellAt storage first :: column.cellsFrom storage (first + 1) count := by
  rw [cellsFrom, List.range'_succ, List.map_cons, cellsFrom]

/-- The cells of a range of rows are a slice of all cells. -/
theorem cellsFrom_eq_slice (storage : Storage) (column : Column) (first : Nat) {last : Nat}
    (inside : last ≤ column.rowCount.toInt.toNat) :
    column.cellsFrom storage first (last - first) =
      ((column.cells storage).take last).drop first := by
  rw [cells_eq_cellsFrom, cellsFrom, cellsFrom, ← List.map_take, ← List.map_drop,
    List.take_range'_of_length_ge inside, List.drop_range', Nat.zero_add, Nat.mul_one]

theorem getElem?_cellsFrom {first count offset : Nat} (inside : offset < count) :
    (column.cellsFrom storage first count)[offset]? =
      some (column.cellAt storage (first + offset)) := by
  rw [cellsFrom, List.getElem?_map, List.getElem?_range' inside, Option.map_some, Nat.one_mul]

/-! ## Null rows -/

theorem presentBefore_succ (column : Column) (row : Nat) :
    column.presentBefore (row + 1) =
      column.presentBefore row + if column.isNull row then 0 else 1 := by
  rw [presentBefore, List.range_succ, List.countP_append, presentBefore, List.countP_singleton]
  cases column.isNull row <;> rfl

theorem presentBefore_mono (column : Column) {first last : Nat} (ordered : first ≤ last) :
    column.presentBefore first ≤ column.presentBefore last := by
  induction ordered with
  | refl => exact Nat.le_refl _
  | step _ ih =>
    rw [presentBefore_succ]
    exact Nat.le_trans ih (Nat.le_add_right _ _)

/-- How many rows before a row are null. -/
def nullsBefore (column : Column) (row : Nat) : Nat :=
  (List.range row).countP fun (earlier : Nat) => column.isNull earlier

theorem nullsBefore_succ (column : Column) (row : Nat) :
    column.nullsBefore (row + 1) = column.nullsBefore row + if column.isNull row then 1 else 0 := by
  rw [nullsBefore, List.range_succ, List.countP_append, List.countP_singleton, nullsBefore]

/-- How many rows are null. -/
def nullRows (column : Column) : Nat :=
  (List.range column.rowCount.toInt.toNat).countP fun (row : Nat) => column.isNull row

/-- A column that counts no nulls has none. -/
theorem HeaderValid.nullsBefore_eq_zero (valid : column.HeaderValid)
    (noNulls : column.nullCount = 0) {row : Nat} (inside : row ≤ column.rowCount.toInt.toNat) :
    column.nullsBefore row = 0 := by
  rw [nullsBefore, List.countP_eq_zero]
  intro earlier member
  have earlierLt := List.mem_range.mp member
  rw [isNull, if_neg (valid.not_behind (by omega)), if_pos noNulls]
  exact Bool.false_ne_true

/-- Of the rows before a row each is either present or null. -/
theorem nullsBefore_add_presentBefore (column : Column) (row : Nat) :
    column.nullsBefore row + column.presentBefore row = row := by
  induction row with
  | zero => rfl
  | succ row ih =>
    rw [nullsBefore_succ, presentBefore_succ]
    cases column.isNull row <;> simp <;> omega

theorem isNull_cellAt (storage : Storage) (column : Column) (row : Nat) :
    (column.cellAt storage row).isNone = column.isNull row := by
  rw [cellAt]
  cases column.isNull row <;> rfl

theorem nulls_cellsFrom (storage : Storage) (column : Column) (first count : Nat) :
    Cell.nulls (column.cellsFrom storage first count) + column.presentBefore (first + count) =
      count + column.presentBefore first := by
  induction count generalizing first with
  | zero => simp [cellsFrom, Cell.nulls]
  | succ count ih =>
    have rest := ih (first + 1)
    have next : first + (count + 1) = first + 1 + count := by omega
    have unfolded : Cell.nulls (column.cellsFrom storage first (count + 1)) =
        Cell.nulls (column.cellsFrom storage (first + 1) count) +
          if column.isNull first then 1 else 0 := by
      rw [cellsFrom_succ, Cell.nulls, List.countP_cons, isNull_cellAt, Cell.nulls]
    rw [presentBefore_succ] at rest
    rw [unfolded, next]
    cases null : column.isNull first <;> simp only [null] at rest ⊢ <;> simp at rest ⊢ <;> omega

/-- The null count agrees with a bitmap that covers all rows. -/
structure Counted (column : Column) : Prop where
  headerValid : column.HeaderValid
  nullCount_eq : column.nullCount.toInt = column.clearRows

namespace Counted

/-- A null count that agrees with the bitmap leaves the bitmap to decide. -/
theorem isNull_eq (counted : column.Counted) {row : Nat}
    (inside : row < column.rowCount.toInt.toNat) :
    column.isNull row = !Bitmap.bit column.validity (column.bitIndex row) := by
  rw [isNull, if_neg (counted.headerValid.not_behind inside)]
  split
  next noNulls =>
    -- Without nulls no bit is clear.
    have noneClear : column.clearRows = 0 := by
      have agreed := counted.nullCount_eq
      rw [noNulls, Int32.toInt_zero] at agreed
      omega
    have set := List.countP_eq_zero.mp noneClear row (List.mem_range.mpr inside)
    simpa using set
  next => rfl

theorem nullRows_eq (counted : column.Counted) :
    (column.nullRows : Int) = column.nullCount.toInt := by
  rw [counted.nullCount_eq, clearRows, nullRows]
  congr 1
  apply List.countP_congr
  intro row member
  rw [counted.isNull_eq (List.mem_range.mp member)]

theorem presentBefore_rowCount (counted : column.Counted) :
    (column.presentBefore column.rowCount.toInt.toNat : Int) =
      column.rowCount.toInt - column.nullCount.toInt := by
  have split : column.nullRows + column.presentBefore column.rowCount.toInt.toNat =
      column.rowCount.toInt.toNat := column.nullsBefore_add_presentBefore _
  have nullsEq := counted.nullRows_eq
  have bounded := counted.headerValid.nullCount_le
  omega

end Counted

/-! ## Ranges of values -/

/-- The layout checks accept the column, and its null count agrees with the bitmap. -/
structure Sound (storage : Storage) (column : Column) : Prop extends Counted column where
  buffersFit : column.BuffersFit storage

namespace Sound

theorem of_accepted {type : ValueType} (accepted : column.layoutError? type = none)
    (nullCountEq : column.nullCount.toInt = column.clearRows) : column.Sound type.storage := by
  obtain ⟨valid, fit⟩ := (layoutError?_eq_none_iff type column).mp accepted
  exact ⟨⟨valid, nullCountEq⟩, fit⟩

theorem accepted {type : ValueType} (sound : column.Sound type.storage) :
    column.layoutError? type = none :=
  (layoutError?_eq_none_iff type column).mpr ⟨sound.headerValid, sound.buffersFit⟩

theorem length_offsets (sound : column.Sound .text) :
    column.offsets.length = column.rowCount.toInt.toNat := by
  have counted := sound.buffersFit.1
  omega

theorem toNat_offsetAt (sound : column.Sound .text) {row : Nat}
    (inside : row < column.rowCount.toInt.toNat) :
    (column.offsetAt row).toNat = column.valueStart .text row := by
  rw [← sound.length_offsets] at inside
  rw [offsetAt, valueStart, List.getElem?_eq_getElem inside]
  rfl

/-- Behind the last row the values end. -/
theorem valueStart_rowCount (sound : column.Sound storage) :
    column.valueStart storage column.rowCount.toInt.toNat = column.values.length := by
  have fit := sound.buffersFit
  cases storage with
  | text =>
    have behind := Nat.le_of_eq sound.length_offsets
    rw [valueStart, List.getElem?_eq_none behind, Option.map_none, Option.getD_none]
  | packed width =>
    have present := sound.presentBefore_rowCount
    have length : (column.values.length : Int) =
        width * (column.rowCount.toInt - column.nullCount.toInt) := fit
    rw [← present, ← Int.natCast_mul] at length
    rw [valueStart, Int.ofNat_inj.mp length, Nat.mul_comm]
  | absent =>
    have length : (column.values.length : Int) =
        (0 : Nat) * (column.rowCount.toInt - column.nullCount.toInt) := fit
    rw [valueStart]
    omega

private theorem text_start_le (sound : column.Sound .text) {first last : Nat}
    (ordered : first ≤ last) : column.valueStart .text first ≤ column.valueStart .text last := by
  obtain ⟨sorted, bounded⟩ := (offsetsOrdered_iff _ _).mp sound.buffersFit.2
  rw [valueStart, valueStart]
  by_cases lastInside : last < column.offsets.length
  · have firstInside : first < column.offsets.length := Nat.lt_of_le_of_lt ordered lastInside
    rw [List.getElem?_eq_getElem lastInside, List.getElem?_eq_getElem firstInside]
    rcases Nat.eq_or_lt_of_le ordered with rfl | before
    · exact Nat.le_refl _
    · exact UInt32.le_iff_toNat_le.mp
        (List.pairwise_iff_getElem.mp sorted first last firstInside lastInside before)
  · rw [List.getElem?_eq_none (Nat.le_of_not_lt lastInside), Option.map_none, Option.getD_none]
    by_cases firstInside : first < column.offsets.length
    · rw [List.getElem?_eq_getElem firstInside]
      exact bounded _ (List.getElem_mem firstInside)
    · rw [List.getElem?_eq_none (Nat.le_of_not_lt firstInside)]
      exact Nat.le_refl _

theorem valueStart_mono (sound : column.Sound storage) {first last : Nat}
    (ordered : first ≤ last) :
    column.valueStart storage first ≤ column.valueStart storage last := by
  cases storage with
  | text => exact sound.text_start_le ordered
  | packed width => exact Nat.mul_le_mul_right width (column.presentBefore_mono ordered)
  | absent => exact Nat.le_refl 0

theorem valueStart_le (sound : column.Sound storage) {row : Nat}
    (inside : row ≤ column.rowCount.toInt.toNat) :
    column.valueStart storage row ≤ column.values.length := by
  rw [← sound.valueStart_rowCount]
  exact sound.valueStart_mono inside

/-- A text reaches up to the start of the next one. -/
theorem textAt_eq (sound : column.Sound .text) {row : Nat}
    (inside : row < column.rowCount.toInt.toNat) :
    column.textAt row =
      Bytes.slice (column.valueStart .text row) (column.valueStart .text (row + 1))
        column.values := by
  have offsetInside : row < column.offsets.length := by
    rw [sound.length_offsets]
    exact inside
  rw [textAt, offsetAt, textEnd, valueStart, valueStart, List.getElem?_eq_getElem offsetInside]
  rfl

/-- The bytes of a present row reach up to the start of the next one. -/
theorem valueAt_eq (sound : column.Sound storage) {row : Nat}
    (inside : row < column.rowCount.toInt.toNat) (present : column.isNull row = false) :
    column.valueAt storage row =
      Bytes.slice (column.valueStart storage row) (column.valueStart storage (row + 1))
        column.values := by
  cases storage with
  | text => exact sound.textAt_eq inside
  | packed width =>
    have next : column.presentBefore (row + 1) = column.presentBefore row + 1 := by
      rw [presentBefore_succ, present, if_neg Bool.false_ne_true]
    rw [valueStart, valueStart, next, Nat.add_mul, Nat.one_mul]
    rfl
  | absent =>
    rw [valueStart, valueStart, Bytes.slice_self]
    rfl

end Sound

namespace Consistent

theorem sound (consistent : column.Consistent storage) : column.Sound storage :=
  ⟨⟨consistent.headerValid, consistent.nullCount_eq⟩, consistent.buffersFit⟩

theorem isNull_eq (consistent : column.Consistent storage) {row : Nat}
    (inside : row < column.rowCount.toInt.toNat) :
    column.isNull row = !Bitmap.bit column.validity (column.bitIndex row) :=
  consistent.sound.isNull_eq inside

theorem nullRows_eq (consistent : column.Consistent storage) :
    (column.nullRows : Int) = column.nullCount.toInt :=
  consistent.sound.nullRows_eq

/-- The bytes of a cell reach up to the start of the next one. -/
theorem bytes_cellAt (consistent : column.Consistent storage) {row : Nat}
    (inside : row < column.rowCount.toInt.toNat) :
    (column.cellAt storage row).bytes =
      Bytes.slice (column.valueStart storage row) (column.valueStart storage (row + 1))
        column.values := by
  have noBytes : Cell.bytes none = [] := rfl
  rw [cellAt]
  cases null : column.isNull row with
  | true =>
    rw [if_pos rfl, noBytes]
    cases storage with
    | text => rw [← consistent.sound.textAt_eq inside, consistent.textAt_of_isNull rfl row inside null]
    | packed width =>
      rw [valueStart, valueStart, presentBefore_succ, null, if_pos rfl, Nat.add_zero,
        Bytes.slice_self]
    | absent => rw [valueStart, valueStart, Bytes.slice_self]
  | false =>
    rw [if_neg Bool.false_ne_true]
    exact consistent.sound.valueAt_eq inside null

/-- The bytes of a range of rows are one range of the values. -/
theorem packed_cellsFrom (consistent : column.Consistent storage) {first count : Nat}
    (inside : first + count ≤ column.rowCount.toInt.toNat) :
    Cell.packed (column.cellsFrom storage first count) =
      Bytes.slice (column.valueStart storage first) (column.valueStart storage (first + count))
        column.values := by
  induction count generalizing first with
  | zero =>
    rw [Nat.add_zero, Bytes.slice_self]
    rfl
  | succ count ih =>
    have next : first + (count + 1) = first + 1 + count := by omega
    rw [next] at inside ⊢
    have unfolded : Cell.packed (column.cellsFrom storage first (count + 1)) =
        (column.cellAt storage first).bytes ++
          Cell.packed (column.cellsFrom storage (first + 1) count) := by
      rw [cellsFrom_succ, Cell.packed, List.flatMap_cons, Cell.packed]
    rw [unfolded, consistent.bytes_cellAt (by omega), ih inside]
    exact Bytes.slice_append_slice (consistent.sound.valueStart_mono (Nat.le_add_right first 1))
      (consistent.sound.valueStart_mono (Nat.le_add_right (first + 1) count)) column.values

theorem length_bytes_cellAt (consistent : column.Consistent storage) {row : Nat}
    (inside : row < column.rowCount.toInt.toNat) :
    (column.cellAt storage row).bytes.length =
      column.valueStart storage (row + 1) - column.valueStart storage row := by
  rw [consistent.bytes_cellAt inside, Bytes.length_slice (consistent.sound.valueStart_le inside)]

/-- The cells of a range start where their rows do, moved as far as the first of them. -/
theorem starts_cellsFrom (consistent : column.Consistent storage) {first count : Nat}
    (inside : first + count ≤ column.rowCount.toInt.toNat) (position : Nat) :
    Cell.starts position (column.cellsFrom storage first count) =
      (List.range' first count).map fun (row : Nat) =>
        UInt32.ofNat
          (position + (column.valueStart storage row - column.valueStart storage first)) := by
  induction count generalizing first position with
  | zero => rfl
  | succ count ih =>
    have firstInside : first < column.rowCount.toInt.toNat := by omega
    have length := consistent.length_bytes_cellAt firstInside
    have firstLe := consistent.sound.valueStart_mono (Nat.le_add_right first 1)
    rw [cellsFrom_succ, Cell.starts, ih (by omega), List.range'_succ, List.map_cons, Nat.sub_self,
      Nat.add_zero]
    congr 1
    apply List.map_congr_left
    intro row member
    have rowLe := consistent.sound.valueStart_mono (List.mem_range'_1.mp member).1
    congr 1
    omega

theorem holds_cellAt (consistent : column.Consistent storage) (kept : storage ≠ .absent)
    {row : Nat} (inside : row < column.rowCount.toInt.toNat) :
    storage.Holds (column.cellAt storage row) := by
  have length := consistent.length_bytes_cellAt inside
  cases storage with
  | text => cases cell : column.cellAt .text row <;> trivial
  | packed width =>
    have nulls := column.isNull_cellAt (.packed width) row
    cases cell : column.cellAt (.packed width) row with
    | none => trivial
    | some value =>
      rw [cell, Option.isNone_some] at nulls
      have next : column.presentBefore (row + 1) = column.presentBefore row + 1 := by
        rw [presentBefore_succ, ← nulls, if_neg Bool.false_ne_true]
      rw [cell, valueStart, valueStart, next, Nat.add_mul, Nat.one_mul, Nat.add_sub_cancel_left]
        at length
      exact length
  | absent => exact absurd rfl kept

end Consistent

/-! ## Packed columns -/

namespace Represents

variable {cells : List Cell}

private theorem offsetsOrdered_starts {position total : Nat}
    (totalEq : position + (Cell.packed cells).length = total) (fits : total < UInt32.size) :
    OffsetsOrdered total (Cell.starts position cells) := by
  induction cells generalizing position with
  | nil => trivial
  | cons cell rest ih =>
    have length : (Cell.packed (cell :: rest)).length =
        cell.bytes.length + (Cell.packed rest).length := by
      simp [Cell.packed]
    rw [length] at totalEq
    have start : (UInt32.ofNat position).toNat = position :=
      UInt32.toNat_ofNat_of_lt' (Nat.lt_of_le_of_lt (by omega) fits)
    have next : (UInt32.ofNat (position + cell.bytes.length)).toNat =
        position + cell.bytes.length :=
      UInt32.toNat_ofNat_of_lt' (Nat.lt_of_le_of_lt (by omega) fits)
    rw [Cell.starts, OffsetsOrdered, start]
    constructor
    · cases rest with
      | nil =>
        rw [Cell.starts]
        exact Nat.le_trans (Nat.le_add_right _ _) (Nat.le_of_eq totalEq)
      | cons following others =>
        rw [Cell.starts, List.head?_cons, Option.map_some, Option.getD_some, next]
        exact Nat.le_add_right _ _
    · exact ih (by omega)

private theorem clearRows_eq (represents : column.Represents storage cells) :
    column.clearRows = Cell.nulls cells := by
  have rows : column.rowCount.toInt.toNat = cells.length := by
    rw [represents.rowCount_eq, Int.toNat_natCast]
  have listed : cells = (List.range cells.length).map fun row => cells[row]?.getD none := by
    apply List.ext_getElem
    · rw [List.length_map, List.length_range]
    · intro row inside _
      rw [List.getElem_map, List.getElem_range, List.getElem?_eq_getElem inside, Option.getD_some]
  conv => rhs; rw [listed]
  rw [clearRows, rows, Cell.nulls, List.countP_map]
  apply List.countP_congr
  intro row member
  have cellAtRow := List.getElem?_eq_getElem (List.mem_range.mp member)
  rw [represents.validity_bit row _ cellAtRow, Function.comp, cellAtRow, Option.getD_some,
    Option.not_isSome]

theorem headerValid (represents : column.Represents storage cells) :
    column.HeaderValid := by
  have rowCountEq := represents.rowCount_eq
  have nullCountEq := represents.nullCount_eq
  have nullsLe := Cell.nulls_le_length cells
  exact {
    nullCount_nonneg := by omega
    nullCount_le := by omega
    bitOffset_nonneg := represents.bitOffset_nonneg
    validity_covers := by
      intro _
      have nonneg := represents.bitOffset_nonneg
      have length := represents.validity_length
      have room := Bitmap.le_mul_byteCount (column.bitIndex cells.length)
      rw [← length, bitIndex_of_nonneg nonneg] at room
      omega }

private theorem buffersFit (represents : column.Represents storage cells)
    (addressable : column.Addressable storage) : column.BuffersFit storage := by
  have rowCountEq := represents.rowCount_eq
  have nullCountEq := represents.nullCount_eq
  have offsetsEq := represents.offsets_eq
  have valuesEq := represents.values_eq
  cases storage with
  | text =>
    constructor
    · rw [offsetsEq, Storage.offsets, Cell.length_starts, rowCountEq]
    · have valuesFit := addressable rfl
      rw [offsetsEq]
      rw [valuesEq] at valuesFit ⊢
      exact offsetsOrdered_starts (Nat.zero_add _) valuesFit
  | packed width =>
    have length := length_packed represents.holds
    have counted := Cell.countP_isSome_add_nulls cells
    have rows : column.rowCount.toInt - column.nullCount.toInt =
        (cells.countP Option.isSome : Nat) := by
      omega
    have fit : (column.values.length : Int) =
        width * (column.rowCount.toInt - column.nullCount.toInt) := by
      rw [rows, valuesEq, length, Int.natCast_mul, Int.mul_comm]
    exact fit
  | absent =>
    have noBytes : Cell.packed cells = [] := by
      apply List.flatMap_eq_nil_iff.mpr
      intro cell member
      cases cell with
      | none => rfl
      | some value => exact (represents.holds _ member).elim
    have fit : (column.values.length : Int) =
        (0 : Nat) * (column.rowCount.toInt - column.nullCount.toInt) := by
      rw [valuesEq, noBytes, List.length_nil, Int.natCast_zero, Int.zero_mul]
    exact fit

/-- A column that represents a list of cells is well formed. -/
theorem consistent (represents : column.Represents storage cells)
    (addressable : column.Addressable storage) : column.Consistent storage where
  headerValid := represents.headerValid
  buffersFit := represents.buffersFit addressable
  nullCount_eq := by rw [represents.nullCount_eq, represents.clearRows_eq]
  textAt_of_isNull := by
    intro text row inside null
    subst text
    have rowCountEq := represents.rowCount_eq
    have rowLt : row < cells.length := by omega
    have cellAtRow := List.getElem?_eq_getElem rowLt
    have noneAt := represents.isNull_eq cellAtRow
    rw [null] at noneAt
    rw [represents.textAt_eq (addressable rfl) cellAtRow]
    cases cell : cells[row] with
    | none => rfl
    | some value =>
      rw [cell] at noneAt
      cases noneAt

end Represents

end Columnar.Column
