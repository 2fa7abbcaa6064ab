import Columnar.Column.Wire
import Mathlib

/-!
# What the layout checks accept

The checks of a column from outside run in a fixed order and compute with 32-bit and 64-bit words.
Here their acceptance is said in plain numbers, without an order and without words:
`layoutError?_eq_none_iff` for the check against a value type, `untypedError?_eq_none_iff` for the
one that knows no type.  Both share the header and the order of the offsets; they differ in what
they ask of the number of offsets and of the size of the values.
-/

namespace Columnar

theorem ValueType.width_le (type : ValueType) : type.width ≤ 8 := by
  rw [width, storage]
  split <;> decide

namespace Column

/-! ## Offsets -/

/-- Offsets that each lie before their successor lie before every later one. -/
theorem offsetsOrdered_iff (valueBytes : Nat) (offsets : List UInt32) :
    OffsetsOrdered valueBytes offsets ↔
      offsets.Pairwise (· ≤ ·) ∧ ∀ offset ∈ offsets, offset.toNat ≤ valueBytes := by
  induction offsets with
  | nil => simp [OffsetsOrdered]
  | cons offset rest ih =>
    rw [OffsetsOrdered, ih, List.pairwise_cons, List.forall_mem_cons]
    constructor
    · rintro ⟨first, ordered, bounded⟩
      have before : ∀ other ∈ rest, offset ≤ other := by
        intro other member
        cases rest with
        | nil => exact absurd member List.not_mem_nil
        | cons next rest =>
          have nextLe : offset ≤ next := UInt32.le_iff_toNat_le.mpr first
          rcases List.mem_cons.mp member with rfl | later
          · exact nextLe
          · exact UInt32.le_trans nextLe ((List.pairwise_cons.mp ordered).1 other later)
      have offsetLe : offset.toNat ≤ valueBytes := by
        cases rest with
        | nil => exact first
        | cons next rest => exact Nat.le_trans first (bounded next List.mem_cons_self)
      exact ⟨⟨before, ordered⟩, offsetLe, bounded⟩
    · rintro ⟨⟨before, ordered⟩, offsetLe, bounded⟩
      refine ⟨?_, ordered, bounded⟩
      cases rest with
      | nil => exact offsetLe
      | cons next rest => exact UInt32.le_iff_toNat_le.mp (before next List.mem_cons_self)

theorem offsetsPerRow_iff (column : Column) :
    column.offsetsPerRow = true ↔ (column.offsets.length : Int) = column.rowCount.toInt :=
  decide_eq_true_iff

/-! ## Rows -/

/-- A count that is positive as a number is not zero as a word. -/
theorem ne_zero_of_toInt_pos {count : Int32} (positive : 0 < count.toInt) : count ≠ 0 := by
  intro none
  rw [none, Int32.toInt_zero] at positive
  exact Int.lt_irrefl 0 positive

/-- Behind a valid header every row has a bit in the bitmap. -/
theorem HeaderValid.not_behind {column : Column} (valid : column.HeaderValid) {row : Nat}
    (inside : row < column.rowCount.toInt.toNat) :
    ¬(column.rowCount.toInt ≤ (row : Int) ∨ column.validity = []) := by
  have covered := valid.validity_covers (by omega)
  have offsetNonneg := valid.bitOffset_nonneg
  rintro (behind | noBitmap)
  · omega
  · rw [noBitmap, List.length_nil] at covered
    omega

/-! ## Values -/

/-- Behind a valid header the size that the present rows need does not wrap. -/
theorem HeaderValid.toNat_expectedBytes {column : Column} (valid : column.HeaderValid)
    (type : ValueType) :
    ((column.expectedBytes type).toNat : Int) =
      type.width * (column.rowCount.toInt - column.nullCount.toInt) := by
  have nullCountNonneg := valid.nullCount_nonneg
  have nullCountLe := valid.nullCount_le
  have rowCountLt := column.rowCount.toInt_lt
  have widthLe := type.width_le
  have present : (column.rowCount - column.nullCount).toInt =
      column.rowCount.toInt - column.nullCount.toInt := by
    rw [Int32.toInt_sub, Int.bmod_eq_of_le] <;> omega
  have nonneg : (0 : Int64) ≤ (column.rowCount - column.nullCount).toInt64 := by
    rw [Int64.le_iff_toInt_le, Int32.toInt_toInt64, present, Int64.toInt_zero]
    omega
  have word : (column.rowCount - column.nullCount).toInt64.toUInt64.toNat =
      (column.rowCount.toInt - column.nullCount.toInt).toNat := by
    rw [Int64.toNat_toUInt64_of_le nonneg, Int64.toNatClampNeg, Int32.toInt_toInt64, present]
  have widthFits : (UInt64.ofNat type.width).toNat = type.width := by
    rw [UInt64.toNat_ofNat']
    exact Nat.mod_eq_of_lt (by omega)
  have product : type.width * (column.rowCount.toInt - column.nullCount.toInt).toNat < 2 ^ 64 := by
    have rows : (column.rowCount.toInt - column.nullCount.toInt).toNat ≤ 2 ^ 31 := by omega
    calc type.width * (column.rowCount.toInt - column.nullCount.toInt).toNat
        ≤ 8 * 2 ^ 31 := Nat.mul_le_mul widthLe rows
      _ < 2 ^ 64 := by decide
  rw [expectedBytes, UInt64.toNat_mul, word, widthFits, Nat.mod_eq_of_lt product]
  have rowsNonneg : 0 ≤ column.rowCount.toInt - column.nullCount.toInt := by omega
  rw [Int.natCast_mul, Int.toNat_of_nonneg rowsNonneg]

/-! ## The two checks -/

/-- The values and offsets are those of as many rows as the header says. -/
def BuffersFit : Storage → Column → Prop
  | .text, column =>
    (column.offsets.length : Int) = column.rowCount.toInt ∧
      OffsetsOrdered column.values.length column.offsets
  | storage, column =>
    (column.values.length : Int) =
      storage.width * (column.rowCount.toInt - column.nullCount.toInt)

theorem buffersFit_of_ne_text {storage : Storage} (noText : storage ≠ .text) (column : Column) :
    column.BuffersFit storage ↔
      (column.values.length : Int) =
        storage.width * (column.rowCount.toInt - column.nullCount.toInt) := by
  cases storage with
  | text => exact absurd rfl noText
  | packed width => exact Iff.rfl
  | absent => exact Iff.rfl

theorem layoutError?_eq_none_iff (type : ValueType) (column : Column) :
    column.layoutError? type = none ↔ column.HeaderValid ∧ column.BuffersFit type.storage := by
  rw [← headerError?_eq_none_iff, layoutError?]
  cases header : column.headerError? with
  | some cause => simp
  | none =>
    have valid := column.headerError?_eq_none_iff.mp header
    simp only [true_and]
    by_cases text : type.storage = .text
    · rw [if_pos (ValueType.isText_iff.mpr text), text, BuffersFit, ← offsetsPerRow_iff,
        ← offsetError?_eq_none_iff]
      split
      next perRow => simp [perRow]
      next other => simp [other]
    · have bytes := valid.toNat_expectedBytes type
      rw [if_neg (mt ValueType.isText_iff.mp text), buffersFit_of_ne_text text]
      rw [ValueType.width] at bytes
      split
      next fits =>
        rw [fits] at bytes
        simp [bytes]
      next differs =>
        simp only [reduceCtorEq, false_iff]
        rw [← bytes]
        intro same
        exact differs (Int.ofNat_inj.mp same.symm)

/-- There are no offsets or one for each row, in order and not behind the values. -/
structure OffsetsSound (column : Column) : Prop where
  count : column.offsets = [] ∨ (column.offsets.length : Int) = column.rowCount.toInt
  ordered : column.offsets.Pairwise (· ≤ ·)
  bounded : ∀ offset ∈ column.offsets, offset.toNat ≤ column.values.length

theorem offsetsSound_iff (column : Column) :
    column.OffsetsSound ↔
      (column.offsets = [] ∨ (column.offsets.length : Int) = column.rowCount.toInt) ∧
        OffsetsOrdered column.values.length column.offsets := by
  rw [offsetsOrdered_iff]
  constructor
  · rintro ⟨count, ordered, bounded⟩
    exact ⟨count, ordered, bounded⟩
  · rintro ⟨count, ordered, bounded⟩
    exact ⟨count, ordered, bounded⟩

theorem untypedError?_eq_none_iff (column : Column) :
    column.untypedError? = none ↔ column.HeaderValid ∧ column.OffsetsSound := by
  rw [offsetsSound_iff, ← headerError?_eq_none_iff, untypedError?, ← offsetsPerRow_iff,
    ← offsetError?_eq_none_iff]
  cases header : column.headerError? with
  | some cause => simp
  | none =>
    simp only [true_and]
    split
    next counted => simp [counted]
    next other => simp [other]

end Column

end Columnar
