import Columnar.Proofs.Column.Guarded
import Columnar.Proofs.Column.Spans

/-!
# Removing the last row

A column that the layout checks accept, with a null count that agrees with the bitmap, is one again
without its last row, and the rows that are left are null where they were (`LosesLast`).

Their values are another matter.  A text ends where the next one starts, and the last one with the
values, so the row before the last is given a new end when the last one goes.  The values are cut
where the last text started, but only if the last row was present.  A null row with bytes of its
own, which the layout checks accept, leaves them to the row before it (`removeLast?_iff`).
-/

namespace Columnar.Column

variable {type : ValueType} {storage : Storage} {column : Column} {rows row : Nat}

/-- A column without the last row of another, which the layout checks accept with a null count
that agrees with the bitmap. -/
structure LosesLast (type : ValueType) (column shorter : Column) : Prop where
  rowCount_eq : shorter.rowCount.toInt = column.rowCount.toInt - 1
  isNull_eq : ∀ row : Nat, (row : Int) < shorter.rowCount.toInt →
    shorter.isNull row = column.isNull row
  layoutError?_eq_none : shorter.layoutError? type = none
  nullCount_eq : shorter.nullCount.toInt = shorter.clearRows

/-- Behind a present row only one more row follows, which is null and has the bytes of a text all
the same. -/
structure StrayText (storage : Storage) (column : Column) (row : Nat) : Prop where
  text : storage = .text
  rowCount_eq : column.rowCount.toInt = row + 2
  present : column.isNull row = false
  last_isNull : column.isNull (row + 1 : Nat) = true
  last_textAt_ne_nil : column.textAt (row + 1) ≠ []

section Last

variable (rowCountEq : column.rowCount.toInt = (rows + 1 : Nat))
include rowCountEq

theorem toInt_rowCount_sub_one : (column.rowCount - 1).toInt = rows := by
  rw [toInt_sub_one (by omega)]
  omega

theorem rowCount_withoutLast (storage : Storage) :
    (column.withoutLast storage).rowCount.toInt = rows :=
  toInt_rowCount_sub_one rowCountEq

theorem nullCount_withoutLast :
    (column.withoutLast storage).nullCount =
      if column.isNull rows then column.nullCount - 1 else column.nullCount := by
  have lastRow : column.rowCount.toInt - 1 = (rows : Nat) := by omega
  simp only [withoutLast, lastRow]

theorem validity_withoutLast :
    (column.withoutLast storage).validity =
      if (column.bitOffset.toInt + rows) % 8 = 0 then column.validity.dropLast
      else column.validity := by
  simp only [withoutLast, toInt_rowCount_sub_one rowCountEq]

/-- A bitmap that ends with the byte of the last row ends with that of the row before it. -/
theorem length_validity_withoutLast (nonneg : 0 ≤ column.bitOffset.toInt)
    (length : column.validity.length = Bitmap.byteCount (column.bitIndex (rows + 1 : Nat))) :
    (column.withoutLast storage).validity.length =
      Bitmap.byteCount ((column.withoutLast storage).bitIndex rows) := by
  have index : (column.withoutLast storage).bitIndex rows =
      column.bitOffset.toInt.toNat + rows := bitIndex_of_nonneg nonneg rows
  rw [bitIndex_of_nonneg nonneg, Bitmap.byteCount] at length
  rw [index, validity_withoutLast rowCountEq, Bitmap.byteCount]
  split
  next wholeBytes =>
    rw [List.length_dropLast]
    omega
  next => omega

/-- The byte that goes holds no bit of another row. -/
theorem bit_withoutLast (valid : column.HeaderValid) (inside : row < rows) :
    Bitmap.bit (column.withoutLast storage).validity ((column.withoutLast storage).bitIndex row) =
      Bitmap.bit column.validity (column.bitIndex row) := by
  have nonneg := valid.bitOffset_nonneg
  have covered := valid.validity_covers (by omega)
  have index : (column.withoutLast storage).bitIndex row = column.bitIndex row := rfl
  rw [index, bitIndex_of_nonneg nonneg, validity_withoutLast rowCountEq]
  split
  next wholeBytes =>
    rw [List.dropLast_eq_take, Bitmap.bit_take]
    omega
  next => rfl

/-- The clear bits are those of the rows that are left and that of a null last row. -/
theorem Counted.nullCount_eq_add (counted : column.Counted) (storage : Storage) :
    column.nullCount.toInt =
      ((column.withoutLast storage).clearRows + if column.isNull rows then 1 else 0 : Nat) := by
  have lastNull := counted.isNull_eq (show rows < column.rowCount.toInt.toNat by omega)
  have rowsEq : column.rowCount.toInt.toNat = rows + 1 := by omega
  have left : (column.withoutLast storage).clearRows =
      (List.range rows).countP fun (row : Nat) =>
        !Bitmap.bit column.validity (column.bitIndex row) := by
    rw [clearRows, rowCount_withoutLast rowCountEq storage, Int.toNat_natCast]
    apply List.countP_congr
    intro row member
    rw [bit_withoutLast rowCountEq counted.headerValid (List.mem_range.mp member)]
  rw [counted.nullCount_eq, clearRows, rowsEq, List.range_succ, List.countP_append, ← left,
    List.countP_singleton, ← lastNull]

/-- The null count follows the bitmap. -/
theorem Counted.nullCount_withoutLast (counted : column.Counted) (storage : Storage) :
    (column.withoutLast storage).nullCount.toInt = (column.withoutLast storage).clearRows := by
  have counts := counted.nullCount_eq_add rowCountEq storage
  rw [Column.nullCount_withoutLast rowCountEq]
  cases null : column.isNull rows with
  | true =>
    rw [null, if_pos rfl] at counts
    rw [if_pos rfl, toInt_sub_one (by omega)]
    omega
  | false =>
    rw [null, if_neg Bool.false_ne_true] at counts
    rw [if_neg Bool.false_ne_true]
    omega

theorem Counted.withoutLast (counted : column.Counted) (storage : Storage) :
    (column.withoutLast storage).Counted where
  headerValid := by
    have counts := counted.nullCount_withoutLast rowCountEq storage
    have shorterRows := rowCount_withoutLast rowCountEq storage
    have nonneg := counted.headerValid.bitOffset_nonneg
    have clearLe : (column.withoutLast storage).clearRows ≤ rows := by
      have bounded := List.countP_le_length
        (p := fun (row : Nat) => !Bitmap.bit (column.withoutLast storage).validity
          ((column.withoutLast storage).bitIndex row)) (l := List.range rows)
      rw [List.length_range] at bounded
      rw [clearRows, shorterRows, Int.toNat_natCast]
      exact bounded
    exact {
      nullCount_nonneg := by omega
      nullCount_le := by omega
      bitOffset_nonneg := nonneg
      validity_covers := by
        intro _
        have covered := counted.headerValid.validity_covers (by omega)
        have offset : (column.withoutLast storage).bitOffset = column.bitOffset := rfl
        rw [offset, shorterRows, validity_withoutLast rowCountEq]
        split
        next wholeBytes =>
          rw [List.length_dropLast]
          omega
        next => omega }
  nullCount_eq := counted.nullCount_withoutLast rowCountEq storage

theorem isNull_withoutLast (counted : column.Counted) (inside : row < rows) :
    (column.withoutLast storage).isNull row = column.isNull row := by
  have shorter := counted.withoutLast rowCountEq storage
  have shorterRows := rowCount_withoutLast rowCountEq storage
  rw [shorter.isNull_eq (by omega), counted.isNull_eq (by omega),
    bit_withoutLast rowCountEq counted.headerValid inside]

theorem presentBefore_withoutLast (counted : column.Counted) (inside : row ≤ rows) :
    (column.withoutLast storage).presentBefore row = column.presentBefore row := by
  rw [presentBefore, presentBefore]
  apply List.countP_congr
  intro earlier member
  have earlierLt := List.mem_range.mp member
  rw [isNull_withoutLast rowCountEq counted (by omega)]

/-! ## Values -/

section Values

variable (sound : column.Sound storage)
include sound

/-- The values end behind those of the last row. -/
theorem valueStart_behind_last : column.valueStart storage (rows + 1) = column.values.length := by
  have rowsEq : column.rowCount.toInt.toNat = rows + 1 := by omega
  rw [← rowsEq]
  exact sound.valueStart_rowCount

theorem valueStart_last_le : column.valueStart storage rows ≤ column.values.length := by
  rw [← valueStart_behind_last rowCountEq sound]
  exact sound.valueStart_mono (Nat.le_succ rows)

/-- The values are cut where those of the last row start, unless that row is null. -/
theorem values_withoutLast :
    (column.withoutLast storage).values =
      if column.isNull rows then column.values
      else column.values.take (column.valueStart storage rows) := by
  have lastRow : column.rowCount.toInt - 1 = (rows : Nat) := by omega
  have last := toInt_rowCount_sub_one rowCountEq
  have bounded := valueStart_last_le rowCountEq sound
  have stop := valueStart_behind_last rowCountEq sound
  cases storage with
  | text =>
    have start := sound.toNat_offsetAt (show rows < column.rowCount.toInt.toNat by omega)
    simp only [withoutLast, lastRow, last, Int.toNat_natCast, start, resize_of_le _ bounded]
  | packed width =>
    simp only [withoutLast, lastRow]
    cases null : column.isNull rows with
    | true => rfl
    | false =>
      have size : column.values.length - (Storage.packed width).width =
          column.valueStart (.packed width) rows := by
        rw [← stop, valueStart, valueStart, presentBefore_succ, null, if_neg Bool.false_ne_true,
          Nat.add_mul, Nat.one_mul, Storage.width, Nat.add_sub_cancel]
      rw [size]
  | absent =>
    have noValues : column.values = [] := List.length_eq_zero_iff.mp stop.symm
    simp only [withoutLast, noValues, List.take_nil, ite_self]

theorem valueStart_le_length_withoutLast :
    column.valueStart storage rows ≤ (column.withoutLast storage).values.length := by
  have bounded := valueStart_last_le rowCountEq sound
  rw [values_withoutLast rowCountEq sound]
  split
  next => exact bounded
  next =>
    rw [List.length_take]
    exact Nat.le_min.mpr ⟨Nat.le_refl _, bounded⟩

end Values

theorem offsets_withoutLast (sound : column.Sound .text) :
    (column.withoutLast .text).offsets = column.offsets.take rows := by
  have last := toInt_rowCount_sub_one rowCountEq
  have shorter : rows ≤ column.offsets.length := by
    rw [sound.length_offsets]
    omega
  simp only [withoutLast, last, Int.toNat_natCast, resize_of_le _ shorter]

theorem buffersFit_withoutLast_text (sound : column.Sound .text) :
    (column.withoutLast .text).BuffersFit .text := by
  have shorterRows := rowCount_withoutLast rowCountEq .text
  have length := sound.length_offsets
  have sorted := ((offsetsOrdered_iff _ _).mp sound.buffersFit.2).1
  constructor
  · rw [shorterRows, offsets_withoutLast rowCountEq sound, List.length_take, length]
    omega
  · rw [offsetsOrdered_iff, offsets_withoutLast rowCountEq sound]
    refine ⟨sorted.sublist (List.take_sublist _ _), ?_⟩
    intro offset member
    obtain ⟨row, rowInside, rfl⟩ := List.mem_take_iff_getElem.mp member
    have rowLt : row < rows := by omega
    have start : column.offsets[row].toNat = column.valueStart .text row := by
      rw [valueStart, List.getElem?_eq_getElem (by omega)]
      rfl
    rw [start]
    exact Nat.le_trans (sound.valueStart_mono (Nat.le_of_lt rowLt))
      (valueStart_le_length_withoutLast rowCountEq sound)

theorem buffersFit_withoutLast_packed {width : Nat} (sound : column.Sound (.packed width)) :
    (column.withoutLast (.packed width)).BuffersFit (.packed width) := by
  have shorter := sound.toCounted.withoutLast rowCountEq (.packed width)
  have shorterRows := rowCount_withoutLast rowCountEq (.packed width)
  have present := shorter.presentBefore_rowCount
  rw [shorterRows, Int.toNat_natCast,
    presentBefore_withoutLast rowCountEq sound.toCounted (Nat.le_refl _)] at present
  have length : (column.withoutLast (.packed width)).values.length =
      column.presentBefore rows * width := by
    have stop := valueStart_behind_last rowCountEq sound
    have bounded := valueStart_last_le rowCountEq sound
    rw [values_withoutLast rowCountEq sound]
    cases null : column.isNull rows with
    | true =>
      rw [valueStart, presentBefore_succ, null, if_pos rfl, Nat.add_zero] at stop
      rw [if_pos rfl, stop]
    | false =>
      rw [if_neg Bool.false_ne_true, List.length_take, Nat.min_eq_left bounded]
      rfl
  have noText : Storage.packed width ≠ .text := by simp
  rw [buffersFit_of_ne_text noText, shorterRows, ← present, length, Int.natCast_mul, Int.mul_comm]
  rfl

theorem sound_withoutLast (sound : column.Sound storage) :
    (column.withoutLast storage).Sound storage where
  toCounted := sound.toCounted.withoutLast rowCountEq storage
  buffersFit := by
    cases storage with
    | text => exact buffersFit_withoutLast_text rowCountEq sound
    | packed width => exact buffersFit_withoutLast_packed rowCountEq sound
    | absent =>
      have length := values_withoutLast rowCountEq sound
      have stop := valueStart_behind_last rowCountEq sound
      have noValues : column.values = [] := List.length_eq_zero_iff.mp stop.symm
      rw [noValues, List.take_nil, ite_self] at length
      have noText : Storage.absent ≠ .text := by simp
      rw [buffersFit_of_ne_text noText, length]
      simp [Storage.width]

/-- The rows that are left start where they did. -/
theorem valueStart_withoutLast (sound : column.Sound storage) (inside : row < rows) :
    (column.withoutLast storage).valueStart storage row = column.valueStart storage row := by
  cases storage with
  | text =>
    rw [valueStart, valueStart, offsets_withoutLast rowCountEq sound,
      List.getElem?_take_of_lt inside, List.getElem?_eq_getElem]
    · rfl
    · rw [sound.length_offsets]
      omega
  | packed width =>
    rw [valueStart, valueStart,
      presentBefore_withoutLast rowCountEq sound.toCounted (Nat.le_of_lt inside)]
  | absent => rfl

/-- A present row keeps its value, and the row before the last one takes over what bytes a null
last row has. -/
theorem valueAt_withoutLast (sound : column.Sound storage)
    (inside : row < rows) (present : column.isNull row = false) :
    (column.withoutLast storage).valueAt storage row =
      column.valueAt storage row ++
        if row + 1 = rows ∧ column.isNull rows = true then
          Bytes.slice (column.valueStart storage rows) (column.valueStart storage (rows + 1))
            column.values
        else [] := by
  have shorter := sound_withoutLast rowCountEq sound
  have shorterRows := rowCount_withoutLast rowCountEq storage
  have stop := valueStart_behind_last rowCountEq sound
  have bounded := valueStart_last_le rowCountEq sound
  have shorterPresent : (column.withoutLast storage).isNull row = false := by
    rw [isNull_withoutLast rowCountEq sound.toCounted inside]
    exact present
  have before := sound.valueStart_mono (Nat.le_succ row)
  have behind := sound.valueStart_mono (Nat.succ_le_of_lt inside)
  rw [shorter.valueAt_eq (by omega) shorterPresent, sound.valueAt_eq (by omega) present,
    valueStart_withoutLast rowCountEq sound inside]
  by_cases earlier : row + 1 < rows
  · have notLast : ¬(row + 1 = rows ∧ column.isNull rows = true) := by omega
    rw [if_neg notLast, List.append_nil, valueStart_withoutLast rowCountEq sound earlier,
      values_withoutLast rowCountEq sound]
    split
    next => rfl
    next => exact Bytes.slice_take behind _
  · have last : row + 1 = rows := by omega
    have shorterStop : (column.withoutLast storage).valueStart storage (row + 1) =
        (column.withoutLast storage).values.length := by
      have ends := shorter.valueStart_rowCount
      rw [shorterRows, Int.toNat_natCast, ← last] at ends
      exact ends
    subst last
    rw [shorterStop, values_withoutLast rowCountEq sound]
    cases null : column.isNull (row + 1 : Nat) with
    | true =>
      rw [if_pos rfl, if_pos ⟨rfl, rfl⟩, stop, Bytes.slice_append_slice before bounded]
    | false =>
      rw [if_neg Bool.false_ne_true, if_neg (fun last => Bool.false_ne_true last.2),
        List.append_nil, List.length_take, Nat.min_eq_left bounded]
      exact Bytes.slice_take (Nat.le_refl _) _

end Last

/-! ## Represented cells -/

/-- The values of the cells before the last one end where that one starts. -/
theorem Represents.valueStart_last {cells : List Cell} {cell : Cell}
    (represents : column.Represents storage (cells ++ [cell]))
    (addressable : column.Addressable storage) :
    column.valueStart storage cells.length = (Cell.packed cells).length := by
  have consistent := represents.consistent addressable
  have rowCountEq := represents.rowCount_eq
  have valuesEq := represents.values_eq
  rw [List.length_append, List.length_singleton] at rowCountEq
  rw [Cell.packed_append, Cell.packed_singleton] at valuesEq
  have stop := valueStart_behind_last rowCountEq consistent.sound
  have bounded := valueStart_last_le rowCountEq consistent.sound
  have lastAt : (cells ++ [cell])[cells.length]? = some cell := by
    rw [List.getElem?_append_right (Nat.le_refl _), Nat.sub_self, List.getElem?_cons_zero]
  have lastInside : cells.length < column.rowCount.toInt.toNat := by omega
  have size := consistent.length_bytes_cellAt lastInside
  rw [represents.cellAt_eq addressable lastAt, stop] at size
  have total := congrArg List.length valuesEq
  rw [List.length_append] at total
  omega

/-- Removing the last row removes the last cell. -/
theorem Represents.withoutLast {cells : List Cell} {cell : Cell}
    (represents : column.Represents storage (cells ++ [cell]))
    (addressable : column.Addressable storage) :
    (column.withoutLast storage).Represents storage cells := by
  have sound := (represents.consistent addressable).sound
  have rowCountEq := represents.rowCount_eq
  rw [List.length_append, List.length_singleton] at rowCountEq
  have lastAt : (cells ++ [cell])[cells.length]? = some cell := by
    rw [List.getElem?_append_right (Nat.le_refl _), Nat.sub_self, List.getElem?_cons_zero]
  have null := represents.isNull_eq lastAt
  have nonneg := represents.bitOffset_nonneg
  exact {
    rowCount_eq := rowCount_withoutLast rowCountEq storage
    nullCount_eq := by
      have nullCountEq := represents.nullCount_eq
      rw [Cell.nulls_append] at nullCountEq
      rw [nullCount_withoutLast rowCountEq, null]
      cases cell with
      | none =>
        have one : Cell.nulls [none] = 1 := rfl
        rw [Option.isNone_none, if_pos rfl, toInt_sub_one (by omega)]
        omega
      | some value =>
        have zero : Cell.nulls [some value] = 0 := rfl
        rw [Option.isNone_some, if_neg Bool.false_ne_true]
        omega
    bitOffset_nonneg := nonneg
    values_eq := by
      have valuesEq := represents.values_eq
      rw [Cell.packed_append, Cell.packed_singleton] at valuesEq
      rw [values_withoutLast rowCountEq sound, null, represents.valueStart_last addressable,
        valuesEq]
      cases cell with
      | none => exact List.append_nil _
      | some value => exact List.take_left' rfl
    validity_length := by
      have length := represents.validity_length
      rw [List.length_append, List.length_singleton] at length
      exact length_validity_withoutLast rowCountEq nonneg length
    validity_bit := by
      intro row other otherAt
      obtain ⟨inside, -⟩ := List.getElem?_eq_some_iff.mp otherAt
      rw [bit_withoutLast rowCountEq sound.headerValid inside]
      apply represents.validity_bit
      rw [List.getElem?_append_left inside]
      exact otherAt
    offsets_eq := by
      have offsetsEq := represents.offsets_eq
      cases storage with
      | text =>
        rw [offsets_withoutLast rowCountEq sound, offsetsEq, Storage.offsets, Cell.starts_append]
        exact List.take_left' (Cell.length_starts 0 cells)
      | packed width => exact offsetsEq
      | absent => exact offsetsEq
    holds := fun other member => represents.holds other (List.mem_append_left _ member) }

/-! ## Guarded removals -/

/-- There is a place for each row: an offset of its own for a text, and room among the values for
the present fixed-width ones. -/
def Placed : Storage → Column → Prop
  | .text, column => (column.offsets.length : Int) = column.rowCount.toInt
  | storage, column =>
    (column.values.length : Int) =
      storage.width * (column.rowCount.toInt - column.nullCount.toInt)

theorem placed_of_ne_text (noText : storage ≠ .text) (column : Column) :
    column.Placed storage ↔
      (column.values.length : Int) =
        storage.width * (column.rowCount.toInt - column.nullCount.toInt) := by
  cases storage with
  | text => exact absurd rfl noText
  | packed width => exact Iff.rfl
  | absent => exact Iff.rfl

theorem BuffersFit.placed (fit : column.BuffersFit storage) : column.Placed storage := by
  cases storage with
  | text => exact fit.1
  | packed width => exact fit
  | absent => exact fit

section Guarded

open Guarded

variable (rowCountEq : column.rowCount.toInt = (rows + 1 : Nat))
include rowCountEq

theorem rowCount_sub_one : column.rowCount - 1 = Int32.ofNat rows := by
  have rowsLt := column.rowCount.toInt_lt
  apply Int32.toInt_inj.mp
  rw [toInt_rowCount_sub_one rowCountEq, Int32.toInt_ofNat_of_lt (by omega)]

theorem nullCountBefore?_eq (valid : column.HeaderValid) (storage : Storage) :
    column.nullCountBefore? (column.isNull rows) =
      some (column.withoutLast storage).nullCount := by
  have nonneg := valid.nullCount_nonneg
  have upper := column.nullCount.toInt_lt
  rw [nullCount_withoutLast rowCountEq, nullCountBefore?]
  split
  next => exact sub?_eq (by rw [Int32.toInt_one]; omega) (by rw [Int32.toInt_one]; omega)
  next => rfl

/-- The shorter column counts no more nulls than rows, so the values of a present row are there. -/
theorem width_le_length_values (counted : column.Counted) {width : Nat}
    (length : (column.values.length : Int) =
      width * (column.rowCount.toInt - column.nullCount.toInt))
    (present : column.isNull rows = false) : width ≤ column.values.length := by
  have shorter := (counted.withoutLast rowCountEq (.packed width)).headerValid.nullCount_le
  rw [nullCount_withoutLast rowCountEq, present, if_neg Bool.false_ne_true,
    rowCount_withoutLast rowCountEq] at shorter
  have room : (width : Int) * 1 ≤ width * (column.rowCount.toInt - column.nullCount.toInt) :=
    Int.mul_le_mul_of_nonneg_left (by omega) (Int.natCast_nonneg width)
  omega

theorem valuesBefore?_eq (counted : column.Counted) (placed : column.Placed storage) :
    column.valuesBefore? storage (Int32.ofNat rows) (column.isNull rows) =
      some (column.withoutLast storage).values := by
  have rowsLt := column.rowCount.toInt_lt
  have last : (Int32.ofNat rows).toInt = rows := Int32.toInt_ofNat_of_lt (by omega)
  have lastRow : column.rowCount.toInt - 1 = (rows : Nat) := by omega
  have cut {width : Nat} (room : width ≤ column.values.length) :
      Bytes.range? 0 (column.values.length - width) column.values =
        some (column.values.take (column.values.length - width)) := by
    rw [← Int.ofNat_sub room]
    exact Bytes.range?_eq (Nat.zero_le _) (Nat.sub_le _ _)
  cases null : column.isNull rows with
  | true => simp only [valuesBefore?, withoutLast, lastRow, null, if_true]
  | false =>
    simp only [valuesBefore?, withoutLast, lastRow, null, Bool.false_eq_true, if_false]
    cases storage with
    | text =>
      have counts : (column.offsets.length : Int) = column.rowCount.toInt := placed
      have inside : rows < column.offsets.length := by omega
      simp only [offset?, last, Int.natCast_nonneg, if_true, Int.toNat_natCast,
        List.getElem?_eq_getElem inside, toInt_rowCount_sub_one rowCountEq, offsetAt,
        Option.getD_some]
      rfl
    | packed width => exact cut (width_le_length_values rowCountEq counted placed null)
    | absent => exact cut (Nat.zero_le _)

theorem offsetsBefore?_eq (storage : Storage) :
    column.offsetsBefore? storage (Int32.ofNat rows) =
      some (column.withoutLast storage).offsets := by
  have rowsLt := column.rowCount.toInt_lt
  have last : (Int32.ofNat rows).toInt = rows := Int32.toInt_ofNat_of_lt (by omega)
  have nonneg : 0 ≤ Int32.ofNat rows := by
    rw [Int32.le_iff_toInt_le, last, Int32.toInt_zero]
    exact Int.natCast_nonneg rows
  cases storage with
  | text =>
    simp only [offsetsBefore?, if_pos nonneg, last, withoutLast,
      toInt_rowCount_sub_one rowCountEq]
  | packed width => rfl
  | absent => rfl

theorem sub?_rowCount_one : sub? column.rowCount 1 = some (Int32.ofNat rows) := by
  have rowsLt := column.rowCount.toInt_lt
  rw [sub?_eq (by rw [Int32.toInt_one]; omega) (by rw [Int32.toInt_one]; omega),
    rowCount_sub_one rowCountEq]

/-- The last row can be removed if the index of its bit is a word. -/
theorem withoutLast?_eq (counted : column.Counted) (placed : column.Placed storage)
    (reaches : column.bitOffset.toInt + column.rowCount.toInt ≤ 2 ^ 31) :
    column.withoutLast? storage = some (column.withoutLast storage) := by
  have valid := counted.headerValid
  have nonneg := valid.bitOffset_nonneg
  have rowsLt := column.rowCount.toInt_lt
  have last : (Int32.ofNat rows).toInt = rows := Int32.toInt_ofNat_of_lt (by omega)
  have nullEq := isNull?_of_indexable valid (.inr reaches) (show (rows : Int) < _ by omega)
  have indexEq : add? column.bitOffset (Int32.ofNat rows) =
      some (column.bitOffset + Int32.ofNat rows) :=
    add?_eq (by omega) (by omega)
  have indexValue : (column.bitOffset + Int32.ofNat rows).toInt =
      column.bitOffset.toInt + rows := by
    rw [Int32.toInt_add, last, Int.bmod_eq_of_le] <;> omega
  have shorterRows : (column.withoutLast storage).rowCount = Int32.ofNat rows :=
    rowCount_sub_one rowCountEq
  have shorterBits : (column.withoutLast storage).validity = _ := validity_withoutLast rowCountEq
  simp only [withoutLast?, sub?_rowCount_one rowCountEq, nullEq, indexEq, indexValue,
    nullCountBefore?_eq rowCountEq valid storage, valuesBefore?_eq rowCountEq counted placed,
    offsetsBefore?_eq rowCountEq storage, Option.bind_eq_bind, Option.bind_some]
  rw [← shorterRows, ← shorterBits]
  rfl

/-- It cannot be removed if the index of its bit is no word. -/
theorem withoutLast?_eq_none (storage : Storage)
    (reaches : 2 ^ 31 < column.bitOffset.toInt + column.rowCount.toInt) :
    column.withoutLast? storage = none := by
  have rowsLt := column.rowCount.toInt_lt
  have last : (Int32.ofNat rows).toInt = rows := Int32.toInt_ofNat_of_lt (by omega)
  have noIndex : add? column.bitOffset (Int32.ofNat rows) = none :=
    word?_eq_none_iff.mpr (.inr (by omega))
  simp only [withoutLast?, sub?_rowCount_one rowCountEq, noIndex, Option.bind_eq_bind,
    Option.bind_some, Option.bind_none, Option.bind_fun_none]

end Guarded

/-! ## Accepted columns -/

theorem removeLast_of_kept (kept : type.storage ≠ .absent) (nonempty : 0 < column.rowCount.toInt) :
    column.removeLast type = .ok (column.withoutLast type.storage) := by
  rw [removeLast]
  split
  next absent => exact absurd absent kept
  next => rw [if_neg (ne_zero_of_toInt_pos nonempty)]

theorem removeLast?_of_kept (kept : type.storage ≠ .absent)
    (nonempty : 0 < column.rowCount.toInt) :
    column.removeLast? type = (column.withoutLast? type.storage).map .ok := by
  rw [removeLast?]
  split
  next absent => exact absurd absent kept
  next =>
    rw [if_neg (ne_zero_of_toInt_pos nonempty)]
    cases column.withoutLast? type.storage <;> rfl

theorem losesLast_withoutLast (sound : column.Sound type.storage)
    (rowCountEq : column.rowCount.toInt = (rows + 1 : Nat)) :
    column.LosesLast type (column.withoutLast type.storage) := by
  have shorterRows := rowCount_withoutLast rowCountEq type.storage
  have shorter := sound_withoutLast rowCountEq sound
  exact {
    rowCount_eq := by omega
    isNull_eq := fun row inside => isNull_withoutLast rowCountEq sound.toCounted (by omega)
    layoutError?_eq_none := shorter.accepted
    nullCount_eq := shorter.nullCount_eq }

/-- Only the text of a null row can have bytes among the values. -/
theorem slice_eq_nil_iff_of_isNull (sound : column.Sound storage)
    (inside : row < column.rowCount.toInt.toNat) (null : column.isNull row = true) :
    Bytes.slice (column.valueStart storage row) (column.valueStart storage (row + 1))
        column.values = [] ↔
      (storage = .text → column.textAt row = []) := by
  cases storage with
  | text => simp [sound.textAt_eq inside]
  | packed width => simp [valueStart, presentBefore_succ, null]
  | absent => simp [valueStart]

/-- Of the present rows that are left all keep their values unless the last row is null and has the
bytes of a text. -/
theorem keepsValues_withoutLast_iff (sound : column.Sound storage)
    (rowCountEq : column.rowCount.toInt = (rows + 1 : Nat)) :
    (∀ row : Nat, (row : Int) < (column.withoutLast storage).rowCount.toInt →
        column.isNull row = false →
          (column.withoutLast storage).valueAt storage row = column.valueAt storage row) ↔
      ∀ row : Nat, ¬column.StrayText storage row := by
  have shorterRows := rowCount_withoutLast rowCountEq storage
  have lastInside : rows < column.rowCount.toInt.toNat := by omega
  constructor
  · intro keeps row stray
    have last : row + 1 = rows := by
      have strayRows := stray.rowCount_eq
      omega
    have null := stray.last_isNull
    have someText := stray.last_textAt_ne_nil
    rw [last] at null someText
    have grown := valueAt_withoutLast rowCountEq sound (by omega) stray.present
    rw [keeps row (by omega) stray.present, if_pos ⟨last, null⟩] at grown
    have noBytes := List.self_eq_append_right.mp grown
    exact someText ((slice_eq_nil_iff_of_isNull sound lastInside null).mp noBytes stray.text)
  · intro noStray row rowLt present
    rw [valueAt_withoutLast rowCountEq sound (by omega) present]
    split
    next beforeNull =>
      obtain ⟨last, null⟩ := beforeNull
      rw [(slice_eq_nil_iff_of_isNull sound lastInside null).mpr, List.append_nil]
      intro text
      by_contra someText
      subst last
      exact noStray row ⟨text, by omega, present, null, someText⟩
    next => rw [List.append_nil]

/-- The last row of an accepted column can be removed exactly if the index of its bit is a word.
Then of the present rows that are left all keep their values unless the last row is null and has
the bytes of a text. -/
theorem removeLast?_iff (kept : type.storage ≠ .absent) (accepted : column.layoutError? type = none)
    (nullCountEq : column.nullCount.toInt = column.clearRows)
    (nonempty : 0 < column.rowCount.toInt) :
    (column.removeLast? type = none ↔
        2 ^ 31 < column.bitOffset.toInt + column.rowCount.toInt) ∧
      (column.bitOffset.toInt + column.rowCount.toInt ≤ 2 ^ 31 →
        ∃ shorter, column.removeLast? type = some (.ok shorter) ∧
          column.LosesLast type shorter ∧
          ((∀ row : Nat, (row : Int) < shorter.rowCount.toInt → column.isNull row = false →
              shorter.valueAt type.storage row = column.valueAt type.storage row) ↔
            ∀ row : Nat, ¬column.StrayText type.storage row)) := by
  have sound := Sound.of_accepted accepted nullCountEq
  obtain ⟨rows, rowCountEq⟩ : ∃ rows : Nat, column.rowCount.toInt = (rows + 1 : Nat) :=
    ⟨column.rowCount.toInt.toNat - 1, by omega⟩
  have removed (reaches : column.bitOffset.toInt + column.rowCount.toInt ≤ 2 ^ 31) :
      column.removeLast? type = some (.ok (column.withoutLast type.storage)) := by
    rw [removeLast?_of_kept kept nonempty,
      withoutLast?_eq rowCountEq sound.toCounted sound.buffersFit.placed reaches, Option.map_some]
  refine ⟨⟨?_, ?_⟩, ?_⟩
  · intro stopped
    by_contra reaches
    rw [removed (by omega)] at stopped
    cases stopped
  · intro overflows
    rw [removeLast?_of_kept kept nonempty, withoutLast?_eq_none rowCountEq _ overflows,
      Option.map_none]
  · intro reaches
    exact ⟨_, removed reaches, losesLast_withoutLast sound rowCountEq,
      keepsValues_withoutLast_iff sound rowCountEq⟩

/-- A text and a null row behind it that shares the end of the values, from bit three on. -/
def nullLast : Column :=
  ⟨2, 1, 3, [97], [8, 0], [0, 1]⟩

theorem removeLast?_nullLast :
    ValueType.string.storage ≠ .absent ∧ nullLast.layoutError? .string = none ∧
      nullLast.nullCount.toInt = nullLast.clearRows ∧ 0 < nullLast.rowCount.toInt ∧
      ∃ shorter, nullLast.removeLast? .string = some (.ok shorter) ∧
        nullLast.LosesLast .string shorter ∧
        shorter.valueAt ValueType.string.storage 0 = [97] := by
  have kept : ValueType.string.storage ≠ .absent := by decide
  have accepted : nullLast.layoutError? .string = none := by decide +kernel
  have nullCountEq : nullLast.nullCount.toInt = nullLast.clearRows := by decide +kernel
  have nonempty : 0 < nullLast.rowCount.toInt := by decide
  obtain ⟨-, removed⟩ := removeLast?_iff kept accepted nullCountEq nonempty
  obtain ⟨shorter, shorterEq, loses, keeps⟩ := removed (by decide)
  have noStray : ∀ row : Nat, ¬nullLast.StrayText ValueType.string.storage row := by
    intro row stray
    have two : (2 : Int) = row + 2 := stray.rowCount_eq
    obtain rfl : row = 0 := by omega
    exact stray.last_textAt_ne_nil (by decide +kernel)
  have rowsLeft := loses.rowCount_eq
  have rows : nullLast.rowCount.toInt = 2 := rfl
  have keptValue := keeps.mpr noStray 0 (by omega) (by decide +kernel)
  refine ⟨kept, accepted, nullCountEq, nonempty, shorter, shorterEq, loses, ?_⟩
  rw [keptValue]
  decide +kernel

/-- A text and a null row behind it that has two more bytes. -/
def strayText : Column :=
  ⟨2, 1, 0, [97, 122, 122], [1], [0, 1]⟩

theorem removeLast?_strayText :
    (∀ type ∈ [ValueType.string, .tag], strayText.layoutError? type = none) ∧
      strayText.nullCount.toInt = strayText.clearRows ∧
      strayText.isNull? 0 = some false ∧ strayText.textAt? 0 = some [97] ∧
      ∃ shorter, strayText.removeLast? .string = some (.ok shorter) ∧
        shorter.isNull? 0 = some false ∧ shorter.textAt? 0 = some [97, 122, 122] := by
  refine ⟨by decide +kernel, by decide +kernel, by decide +kernel, by decide +kernel,
    ⟨1, 0, 0, [97, 122, 122], [1], [0]⟩, ?_⟩
  decide +kernel

end Columnar.Column
