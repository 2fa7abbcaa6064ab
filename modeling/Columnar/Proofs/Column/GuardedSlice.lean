import Columnar.Column.Slice
import Columnar.Proofs.Bitmap
import Columnar.Proofs.Column.Slice

/-!
# When guarded appending goes through

Appending rows reads the null index at two places, the offsets of the rows and of the one behind
them, and a range each of the values and of the bitmap.  For a source that the layout checks accept
with an exact null count, and a null index that finds its ranks, all of these are there, and the
numbers are words if the rows and their bits are few enough (`SliceFits`).  The guarded append is
then the plain one (`appendRows?_eq`).
-/

namespace Columnar.Column

variable {storage : Storage} {source target : Column} {nulls : NullIndex} {first last : Nat}

/-- The rows and the positions of their bits are words with room to spare. -/
structure SliceFits (source target : Column) (first last : Nat) : Prop where
  ordered : first ≤ last
  inside : (last : Int) ≤ source.rowCount.toInt
  rows_fit : source.rowCount.toInt < 2 ^ 28
  source_bits_fit : source.bitOffset.toInt + source.rowCount.toInt < 2 ^ 30
  target_bits_fit : target.bitOffset.toInt + target.rowCount.toInt + (last - first) < 2 ^ 30

/-- The header is valid, and the bitmap ends with the byte of the last row's bit. -/
structure Tight (column : Column) : Prop extends HeaderValid column where
  validity_length : column.validity.length =
    Bitmap.byteCount (column.bitIndex column.rowCount.toInt)

theorem Represents.tight {cells : List Cell} (represents : target.Represents storage cells) :
    target.Tight where
  toHeaderValid := represents.headerValid
  validity_length := by
    rw [represents.rowCount_eq]
    exact represents.validity_length

/-! ## Texts -/

theorem offset?_eq {row : Nat} (inside : row < source.offsets.length) :
    source.offset? row = some (source.offsetAt row) := by
  rw [offset?, if_pos (Int.natCast_nonneg row), Int.toNat_natCast, offsetAt,
    List.getElem?_eq_getElem inside, Option.getD_some]

/-- Texts that are placed one behind the other are as far from the first as they were. -/
theorem placesBehind?_eq (place : UInt32) {row count : Nat}
    (inside : row + count < source.offsets.length) :
    source.placesBehind? place row count =
      some ((List.range' (row + 1) count).map fun (later : Nat) =>
        place + (source.offsetAt later - source.offsetAt row)) := by
  induction count generalizing place row with
  | zero => rfl
  | succ count ih =>
    have nextRow : (row : Int) + 1 = (row + 1 : Nat) := rfl
    rw [placesBehind?, nextRow, offset?_eq (by omega), offset?_eq (by omega)]
    have laterInside : row + 1 + count < source.offsets.length := by omega
    simp only [Option.bind_eq_bind, Option.bind_some, ih _ laterInside, List.range'_succ,
      List.map_cons]
    congr 2
    apply List.map_congr_left
    intro later _
    grind

theorem movedOffsets?_eq (nonempty : first < last) (inside : last ≤ source.offsets.length)
    (valueBytes : Nat) :
    source.movedOffsets? first last valueBytes =
      some (source.movedOffsets first last valueBytes) := by
  have behind : ((last : Int) - first - 1).toNat = last - first - 1 := by omega
  have count : last - first = last - first - 1 + 1 := by omega
  rw [movedOffsets_eq_map inside, count, List.range'_succ, List.map_cons, UInt32.sub_self,
    UInt32.add_zero, movedOffsets?, behind, placesBehind?_eq _ (by omega)]
  rfl

theorem textRange?_eq (sound : source.Sound .text) (addressable : source.Addressable .text)
    (nonempty : first < last) (inside : (last : Int) ≤ source.rowCount.toInt) :
    source.textRange? first last = some (source.textRange first last) := by
  have offsetsLength := sound.length_offsets
  have lastLe : last ≤ source.rowCount.toInt.toNat := by omega
  have startEq := sound.toNat_offsetAt (Nat.lt_of_lt_of_le nonempty lastLe)
  have ordered := sound.valueStart_mono (Nat.le_of_lt nonempty)
  have bounded := sound.valueStart_le lastLe
  rw [textRange?, textRange, textsEnd?, offset?_eq (by omega)]
  split
  next all =>
    have valuesLength : (UInt32.ofNat source.values.length).toNat = source.values.length :=
      UInt32.toNat_ofNat_of_lt' (addressable rfl)
    simp only [Option.bind_eq_bind, Option.bind_some]
    exact Bytes.range?_eq (by omega) (by omega)
  next =>
    have lastLt : last < source.rowCount.toInt.toNat := by omega
    have stopEq := sound.toNat_offsetAt lastLt
    rw [offset?_eq (by omega)]
    simp only [Option.bind_eq_bind, Option.bind_some]
    exact Bytes.range?_eq (by omega) (by omega)

/-! ## Block copies -/

theorem fixedRange?_eq {width firstValue lastValue : Nat} (ordered : firstValue ≤ lastValue)
    (inside : lastValue * width ≤ source.values.length) (fits : lastValue * width < 2 ^ 31) :
    source.fixedRange? width firstValue lastValue =
      some (Bytes.slice (firstValue * width) (lastValue * width) source.values) := by
  have startLe := Nat.mul_le_mul_right width ordered
  rw [fixedRange?, ← Int.natCast_mul, ← Int.natCast_mul, Guarded.int?_eq (by omega) (by omega),
    Guarded.int?_eq (by omega) (by omega)]
  exact Bytes.range?_eq startLe inside

section Blocks

variable (sound : source.Sound storage) (fits : source.SliceFits target first last)
  (nonempty : first < last)
include sound fits nonempty

theorem offsetRange?_eq (valueBytes : Nat) :
    source.offsetRange? storage first last valueBytes =
      some (match storage with
        | .text => source.movedOffsets first last valueBytes
        | _ => []) := by
  have inside := fits.inside
  cases storage with
  | text =>
    have offsetsLength := sound.length_offsets
    exact movedOffsets?_eq nonempty (by omega) valueBytes
  | packed width => rfl
  | absent => rfl

theorem valueRange?_eq (addressable : source.Addressable storage) (narrow : storage.width ≤ 8) :
    source.valueRange? storage first last (source.presentBefore first)
        (source.presentBefore last) =
      some (match storage with
        | .text => source.textRange first last
        | _ => Bytes.slice (source.presentBefore first * storage.width)
            (source.presentBefore last * storage.width) source.values) := by
  have inside := fits.inside
  have rowsFit := fits.rows_fit
  have presentMono := source.presentBefore_mono (Nat.le_of_lt nonempty)
  have presentLe : source.presentBefore last ≤ last := by
    have counted := source.nullsBefore_add_presentBefore last
    omega
  have lastLe : last ≤ source.rowCount.toInt.toNat := by omega
  have bounded := sound.valueStart_le lastLe
  cases storage with
  | text => exact textRange?_eq sound addressable nonempty inside
  | packed width =>
    have stopLe : source.presentBefore last * width ≤ (2 ^ 28 - 1) * 8 :=
      Nat.mul_le_mul (by omega) narrow
    exact fixedRange?_eq presentMono bounded (Nat.lt_of_le_of_lt stopLe (by decide))
  | absent =>
    have noBytes : source.presentBefore last * Storage.absent.width = 0 := rfl
    exact fixedRange?_eq presentMono (by omega) (by omega)

theorem appendBits?_eq (tight : target.Tight) :
    target.appendBits? source.validity source.bitOffset.toInt source.rowCount.toInt first last =
      some (target.appendBits source.validity source.bitOffset.toInt first last) := by
  have sourceFits := fits.source_bits_fit
  have targetFits := fits.target_bits_fit
  have rowsFit := fits.rows_fit
  have inside := fits.inside
  have rowsNonneg : 0 ≤ source.rowCount.toInt := by omega
  have covered := sound.headerValid.validity_covers (by omega)
  have targetNonneg := tight.bitOffset_nonneg
  have targetNulls := tight.nullCount_nonneg
  have targetRows := tight.nullCount_le
  have length := tight.validity_length
  have room := Bitmap.le_mul_byteCount (target.bitIndex target.rowCount.toInt)
  obtain ⟨base, baseEq⟩ := Int.eq_ofNat_of_zero_le sound.headerValid.bitOffset_nonneg
  obtain ⟨rows, rowsEq⟩ := Int.eq_ofNat_of_zero_le rowsNonneg
  obtain ⟨position, positionEq⟩ := Int.eq_ofNat_of_zero_le
    (show 0 ≤ target.bitOffset.toInt + target.rowCount.toInt by omega)
  rw [bitIndex, positionEq, Int.toNat_natCast] at length room
  rw [appendBits?, appendBits, positionEq, baseEq, rowsEq, Guarded.int?_eq (by omega) (by omega)]
  simp only [Option.bind_eq_bind, Option.bind_some]
  rw [Bitmap.appendRange?_eq (Nat.le_of_lt nonempty) (by omega) (by omega) (by omega) (by omega)
    (by omega)]
  rfl

/-- The block copies of rows go through. -/
theorem appendRange?_eq (addressable : source.Addressable storage) (narrow : storage.width ≤ 8)
    (finds : nulls.Finds source) (tight : target.Tight) :
    source.appendRange? storage first last nulls target =
      some (source.appendRange storage first last nulls target) := by
  have inside := fits.inside
  have rowsFit := fits.rows_fit
  have targetFits := fits.target_bits_fit
  have targetNonneg := tight.bitOffset_nonneg
  have targetNulls := tight.nullCount_nonneg
  have targetRows := tight.nullCount_le
  have firstFound := finds first (by omega)
  have lastFound := finds last (by omega)
  have firstRank := finds.ranks first (by omega)
  have lastRank := finds.ranks last (by omega)
  have presentMono := source.presentBefore_mono (Nat.le_of_lt nonempty)
  have counted := source.nulls_cellsFrom storage first (last - first)
  have nullsAdded := Cell.nulls_le_length (source.cellsFrom storage first (last - first))
  rw [length_cellsFrom] at nullsAdded
  rw [Nat.add_sub_cancel' (Nat.le_of_lt nonempty)] at counted
  rw [appendRange?, firstFound, lastFound, offsetRange?_eq sound fits nonempty]
  simp only [Option.bind_eq_bind, Option.bind_some]
  rw [valueRange?_eq sound fits nonempty addressable narrow,
    appendBits?_eq sound fits nonempty tight]
  simp only [Option.bind_some]
  rw [Guarded.int?_eq (by omega) (by omega), Option.bind_some,
    Guarded.int?_eq (by omega) (by omega), Option.bind_some,
    Guarded.int?_eq (by omega) (by omega), Option.bind_some,
    Guarded.word?_eq (by omega) (by omega), Option.bind_some,
    Guarded.word?_eq (by omega) (by omega), Option.bind_some]
  simp only [appendRange, firstRank, lastRank, Int32.ofInt_add, Int32.ofInt_toInt,
    Int.toNat_natCast]
  cases storage with
  | text => rfl
  | packed width => rw [List.append_nil]; rfl
  | absent => rw [List.append_nil]; rfl

end Blocks

/-! ## Whole copies -/

theorem trimmed?_eq (valid : source.HeaderValid) (nonempty : 0 < source.rowCount.toInt)
    (bitsFit : source.bitOffset.toInt + source.rowCount.toInt < 2 ^ 31) :
    source.trimmed? = some source.trimmed := by
  have covered := valid.bitIndex_rowCount_le nonempty
  have nonneg := valid.bitOffset_nonneg
  obtain ⟨base, baseEq⟩ := Int.eq_ofNat_of_zero_le nonneg
  obtain ⟨rows, rowsEq⟩ : ∃ rows : Nat, source.rowCount.toInt = rows :=
    Int.eq_ofNat_of_zero_le (by omega)
  have baseIndex : source.bitIndex 0 = base := by
    rw [bitIndex]
    omega
  have endIndex : source.bitIndex rows = base + rows := by
    rw [bitIndex]
    omega
  rw [rowsEq, endIndex] at covered
  have endInside := Bitmap.byteCount_le_length covered
  have firstLe : base / 8 ≤ Bitmap.byteCount (base + rows) := by
    rw [Bitmap.byteCount]
    omega
  have countEq : (Bitmap.byteCount (base + rows) : Int) - (base / 8 : Nat) =
      (Bitmap.byteCount (base + rows) - base / 8 : Nat) := by
    omega
  have offsetEq : ((base % 8 : Nat) : Int) = (base : Int) % 8 := rfl
  have part : Bytes.range? 0 (Bitmap.byteCount (base + rows) - base / 8 : Nat)
      (source.validity.drop (base / 8)) =
      some (Bitmap.span base (base + rows) source.validity) := by
    rw [← Int.natCast_zero, Bytes.range?_eq (Nat.zero_le _) (by rw [List.length_drop]; omega),
      Bytes.slice_drop, Nat.add_zero, Nat.add_sub_cancel' firstLe, Bitmap.span]
  rw [trimmed?, baseEq, rowsEq, Bitmap.window?_eq covered (by omega)]
  simp only [Option.bind_eq_bind, Option.bind_some, countEq, part]
  rw [trimmed, baseEq, rowsEq, baseIndex, endIndex, offsetEq]
  rfl

/-- The guarded append is the plain one. -/
theorem appendRows?_eq {type : ValueType} (sound : source.Sound type.storage)
    (addressable : source.Addressable type.storage) (finds : nulls.Finds source)
    (tight : target.Tight) (fits : source.SliceFits target first last) :
    source.appendRows? type first last nulls target =
      some (source.appendRows type first last nulls target) := by
  have narrow := type.width_le
  have bitsFit := fits.source_bits_fit
  have rowsFit := fits.rows_fit
  have inside := fits.inside
  have ordered := fits.ordered
  rw [ValueType.width] at narrow
  by_cases kept : type.storage = .absent
  · rw [appendRows?, appendRows, kept]
  · rw [appendRows_of_kept kept, appendRows?]
    split
    next absent => exact absurd absent kept
    next =>
      rw [Guarded.int?_eq (by omega) (by omega)]
      simp only [Option.bind_eq_bind, Option.bind_some]
      split
      next => rfl
      next someRows =>
        have nonempty : first < last := by omega
        split
        next =>
          rw [trimmed?_eq sound.headerValid (by omega) (by omega), Option.bind_some]
          rfl
        next =>
          rw [appendRange?_eq sound fits nonempty addressable narrow finds tight, Option.bind_some]
          rfl

end Columnar.Column
