import Columnar.Column.Layout
import Columnar.Column.Slice
import Columnar.Proofs.Bitmap

/-!
# Bits appended to a column

Bits are appended behind those of the rows, as whole bytes or one by one.  The copy of single bits
writes at positions, the copy of whole bytes at the end of the bitmap.  The two agree where the
bitmap ends with the byte of the last row; but the layout checks also accept a bitmap with bytes to
spare, and then a copy of whole bytes stands behind those (`appendBits_iff`).
-/

namespace Columnar

namespace Bitmap

variable {bitmap source : Bytes} {base first last position : Nat}

theorem bit_replicate (byte : UInt8) {count position : Nat} (inside : position < 8 * count) :
    bit (List.replicate count byte) position = byte.toNat.testBit (position % 8) := by
  have byteInside : position / 8 < count := by omega
  rw [bit, List.getElem?_replicate, if_pos byteInside, Option.getD_some]

/-- Bits of a source, `count` from `start` on, stand in a bitmap from a position on. -/
structure HoldsRange (source : Bytes) (start count position : Nat) (bitmap : Bytes) : Prop where
  covers : position + count ≤ 8 * bitmap.length
  bit_eq : ∀ offset < count, bit bitmap (position + offset) = bit source (start + offset)

/-- Without bits neither copy changes the bitmap. -/
theorem appendRange_self (source : Bytes) (base first position : Nat) (bitmap : Bytes) :
    appendRange source base first first position bitmap = bitmap := by
  rw [appendRange_natCast]
  split
  next aligned =>
    have noBytes : byteCount (base + first) - (base + first) / 8 = 0 := by
      rw [byteCount]
      omega
    rw [span, Bytes.slice, noBytes, List.take_zero, List.append_nil]
  next unaligned =>
    rw [Nat.sub_self, Nat.add_zero, Nat.sub_self, List.replicate_zero, List.append_nil, copyBits]

theorem holdsRange_of_empty (covered : position ≤ 8 * bitmap.length) :
    HoldsRange source (base + first) (first - first) position
      (appendRange source base first first position bitmap) := by
  rw [appendRange_self, Nat.sub_self]
  exact ⟨covered, fun _ inside => absurd inside (Nat.not_lt_zero _)⟩

/-- A copy of single bits stands where it belongs, whatever the bitmap has behind its last bit in
use. -/
theorem holdsRange_of_unaligned (covered : position ≤ 8 * bitmap.length)
    (unaligned : ¬(position % 8 = 0 ∧ (base + first) % 8 = 0)) :
    HoldsRange source (base + first) (last - first) position
      (appendRange source base first last position bitmap) := by
  rw [appendRange_natCast, if_neg unaligned]
  have enough := le_length_padded covered (last - first)
  constructor
  · rw [length_copyBits source (base + first) enough]
    exact enough
  · intro offset inside
    rw [bit_copyBits, if_pos (by omega), Nat.add_sub_cancel_left]

theorem holdsRange_of_exact_length (ordered : first ≤ last)
    (sourceCovered : base + last ≤ 8 * source.length)
    (exactLength : bitmap.length = byteCount position) :
    HoldsRange source (base + first) (last - first) position
      (appendRange source base first last position bitmap) where
  covers := by
    rw [length_appendRange ordered sourceCovered exactLength]
    exact le_mul_byteCount _
  bit_eq := fun _ inside => bit_appendRange_add ordered exactLength inside

/-- Behind bytes to spare a copy of whole bytes does not reach the position, so some source has
another bit there. -/
theorem exists_not_holdsRange (ordered : first < last) (positionAligned : position % 8 = 0)
    (sourceAligned : (base + first) % 8 = 0) (spare : position < 8 * bitmap.length) :
    ∃ source : Bytes, base + last ≤ 8 * source.length ∧
      ¬HoldsRange source (base + first) (last - first) position
        (appendRange source base first last position bitmap) := by
  refine ⟨List.replicate (base + last) (if bit bitmap position then 0 else 255), ?_, ?_⟩
  · rw [List.length_replicate]
    omega
  · intro holds
    have firstBit := holds.bit_eq 0 (by omega)
    rw [appendRange_natCast, if_pos ⟨positionAligned, sourceAligned⟩, Nat.add_zero, Nat.add_zero,
      bit_append_left _ _ spare, bit_replicate _ (by omega), sourceAligned] at firstBit
    cases present : bit bitmap position with
    | false =>
      rw [present, if_neg Bool.false_ne_true] at firstBit
      exact absurd firstBit (by decide)
    | true =>
      rw [present, if_pos rfl] at firstBit
      exact absurd firstBit (by decide)

end Bitmap

namespace Column

open Bitmap

variable {column : Column}

/-- Bits that are appended behind those of the rows leave the rows' bits as they are.  For every
source they stand right behind them exactly if there are none, or they are copied one by one, or
the bitmap has no byte to spare. -/
theorem appendBits_iff (bitOffsetNonneg : 0 ≤ column.bitOffset.toInt)
    (rowCountNonneg : 0 ≤ column.rowCount.toInt)
    (covered : column.bitOffset.toInt + column.rowCount.toInt ≤ 8 * (column.validity.length : Int))
    {base first last : Nat} (ordered : first ≤ last) :
    (∀ source : Bytes, ∀ row < column.rowCount.toInt.toNat,
      bit (column.appendBits source base first last).validity (column.bitIndex row) =
        bit column.validity (column.bitIndex row)) ∧
    ((∀ source : Bytes, base + last ≤ 8 * source.length →
        HoldsRange source (base + first) (last - first) (column.bitIndex column.rowCount.toInt)
          (column.appendBits source base first last).validity) ↔
      first = last ∨
        ¬(column.bitIndex column.rowCount.toInt % 8 = 0 ∧ (base + first) % 8 = 0) ∨
        column.validity.length = byteCount (column.bitIndex column.rowCount.toInt)) := by
  have positionEq : column.bitOffset.toInt + column.rowCount.toInt =
      (column.bitIndex column.rowCount.toInt : Nat) := by
    rw [bitIndex]
    omega
  have positionCovered : column.bitIndex column.rowCount.toInt ≤ 8 * column.validity.length := by
    omega
  have validityEq (source : Bytes) :
      (column.appendBits source base first last).validity =
        Bitmap.appendRange source base first last (column.bitIndex column.rowCount.toInt : Nat)
          column.validity := by
    rw [appendBits, positionEq]
  simp only [validityEq]
  constructor
  · intro source row inside
    have before : column.bitIndex row < column.bitIndex column.rowCount.toInt := by
      rw [bitIndex, bitIndex]
      omega
    exact bit_appendRange_of_lt positionCovered before
  · constructor
    · intro holds
      by_contra other
      simp only [not_or, not_not] at other
      obtain ⟨nonempty, ⟨positionAligned, sourceAligned⟩, longer⟩ := other
      have spare : column.bitIndex column.rowCount.toInt < 8 * column.validity.length := by
        have held := byteCount_le_length positionCovered
        rw [byteCount] at held longer
        omega
      obtain ⟨source, sourceCovered, missed⟩ := exists_not_holdsRange
        (Nat.lt_of_le_of_ne ordered nonempty) positionAligned sourceAligned spare
      exact missed (holds source sourceCovered)
    · intro cases source sourceCovered
      rcases cases with rfl | unaligned | exactLength
      · exact holdsRange_of_empty positionCovered
      · exact holdsRange_of_unaligned positionCovered unaligned
      · exact holdsRange_of_exact_length ordered sourceCovered exactLength

/-- Eight truth values, in a bitmap with a byte to spare. What starts inside a byte is copied to them
bit by bit. -/
def spareByte : Column :=
  ⟨8, 0, 0, List.replicate 8 1, [255, 0], []⟩

theorem appendBits_spareByte :
    0 ≤ spareByte.bitOffset.toInt ∧ 0 ≤ spareByte.rowCount.toInt ∧
      spareByte.bitOffset.toInt + spareByte.rowCount.toInt ≤
        8 * (spareByte.validity.length : Int) ∧ 3 ≤ 9 ∧
      (∀ source : Bytes, ∀ row < spareByte.rowCount.toInt.toNat,
        bit (spareByte.appendBits source (1 : Nat) (3 : Nat) (9 : Nat)).validity
            (spareByte.bitIndex row) =
          bit spareByte.validity (spareByte.bitIndex row)) ∧
      ∀ source : Bytes, 1 + 9 ≤ 8 * source.length →
        HoldsRange source (1 + 3) (9 - 3) (spareByte.bitIndex spareByte.rowCount.toInt)
          (spareByte.appendBits source (1 : Nat) (3 : Nat) (9 : Nat)).validity := by
  have offsetNonneg : 0 ≤ spareByte.bitOffset.toInt := by decide
  have rowsNonneg : 0 ≤ spareByte.rowCount.toInt := by decide
  have covered : spareByte.bitOffset.toInt + spareByte.rowCount.toInt ≤
      8 * (spareByte.validity.length : Int) := by
    decide
  obtain ⟨rowsKept, lands⟩ := appendBits_iff offsetNonneg rowsNonneg covered (show 3 ≤ 9 by decide)
  exact ⟨offsetNonneg, rowsNonneg, covered, by decide, rowsKept, lands.mpr (.inr (.inl (by decide)))⟩

/-- The layout checks accept the byte to spare, and a whole byte of set bits that is appended
stands behind it, out of the place of the next rows. -/
theorem appendBits_behind_spareByte :
    spareByte.layoutError? .boolean = none ∧
      (spareByte.appendBits [255] 0 0 8).validity = [255, 0, 255] ∧
      bit [255] 0 = true ∧
      bit (spareByte.appendBits [255] 0 0 8).validity
        (spareByte.bitIndex spareByte.rowCount.toInt) = false := by
  decide +kernel

end Column

end Columnar
