import Columnar.Column.Basic

/-!
# Layout of columns

The header of a column and its buffers are independent data, and a column from outside can
contradict itself in many ways.  The checks here find the first contradiction, in a fixed order:
the header, the size of the bitmap, and then, by the value type, the offsets of a column of texts
or the size of the values of any other column.
-/

namespace Columnar

/-- How a column contradicts itself. -/
inductive LayoutError where
  /-- A count is negative, or there are more nulls than rows. -/
  | header (rowCount nullCount bitOffset : Int32)
  /-- The validity bitmap has too few bytes. -/
  | validity (bytes : Nat) (rowCount : Int32)
  /-- The offsets are not one per row. -/
  | offsetCount (offsets : Nat) (rowCount : Int32)
  /-- The offset at `index` lies behind the next one, or behind the values. -/
  | offsetOrder (index : Nat) (offset : UInt32) (next bytes : Nat)
  /-- The values have not the size that the present rows need. -/
  | values (expected : UInt64) (bytes : Nat)
deriving DecidableEq, Repr

/-- The wording of a contradiction. -/
def LayoutError.message : LayoutError → Bytes
  | .header rowCount nullCount bitOffset =>
      Bytes.ofString (s!"invalid colval header: len={rowCount.toInt} " ++
        s!"nil_count={nullCount.toInt} bit_map_offset={bitOffset.toInt}")
  | .validity bytes rowCount =>
      Bytes.ofString s!"invalid colval bitmap: {bytes} bytes for {rowCount.toInt} rows"
  | .offsetCount offsets rowCount =>
      Bytes.ofString s!"invalid colval offsets: {offsets} for {rowCount.toInt} rows"
  | .offsetOrder index offset next bytes =>
      Bytes.ofString (s!"invalid colval offsets: offset[{index}]={offset.toNat} " ++
        s!"beyond {next}, val has {bytes} bytes")
  | .values expected bytes =>
      Bytes.ofString s!"invalid colval val: exp {expected.toNat} bytes, got {bytes}"

namespace Column

/-- The first contradiction in the header, or between it and the bitmap. -/
def headerError? (column : Column) : Option LayoutError :=
  if column.rowCount < 0 ∨ column.nullCount < 0 ∨ column.rowCount < column.nullCount ∨
      column.bitOffset < 0 then
    some (.header column.rowCount column.nullCount column.bitOffset)
  else if 0 < column.rowCount ∧
      8 * (column.validity.length : Int) < column.bitOffset.toInt + column.rowCount.toInt then
    some (.validity column.validity.length column.rowCount)
  else
    none

/-- The first offset, of those from `index` on, that lies behind its successor or behind the
end of the values. -/
def offsetErrorFrom? (valueBytes : Nat) : (index : Nat) → List UInt32 → Option LayoutError
  | _, [] => none
  | index, offset :: rest =>
    let next := (rest.head?.map UInt32.toNat).getD valueBytes
    if next < offset.toNat then
      some (.offsetOrder index offset next valueBytes)
    else
      offsetErrorFrom? valueBytes (index + 1) rest

/-- The first offset that lies behind its successor or behind the end of the values. -/
def offsetError? (column : Column) : Option LayoutError :=
  offsetErrorFrom? column.values.length 0 column.offsets

/-- Whether there are as many offsets as rows. -/
def offsetsPerRow (column : Column) : Bool :=
  (column.offsets.length : Int) = column.rowCount.toInt

/-- The bytes that the present rows need, as a 64-bit word: a negative number of rows wraps. -/
def expectedBytes (type : ValueType) (column : Column) : UInt64 :=
  UInt64.ofNat type.width * (column.rowCount - column.nullCount).toInt64.toUInt64

/-- The first contradiction in a column of the given type. -/
def layoutError? (type : ValueType) (column : Column) : Option LayoutError :=
  match column.headerError? with
  | some cause => some cause
  | none =>
    if type.isText then
      if column.offsetsPerRow then
        column.offsetError?
      else
        some (.offsetCount column.offsets.length column.rowCount)
    else if (column.expectedBytes type).toNat = column.values.length then
      none
    else
      some (.values (column.expectedBytes type) column.values.length)

/-! ## What the checks certify -/

/-- A count is zero as a number exactly if it is zero as a word. -/
theorem toInt_eq_zero_iff {count : Int32} : count.toInt = 0 ↔ count = 0 := by
  rw [← Int32.toInt_zero]
  exact Int32.toInt_inj

/-- The header is free of contradictions and the bitmap covers all rows. -/
structure HeaderValid (column : Column) : Prop where
  nullCount_nonneg : 0 ≤ column.nullCount.toInt
  nullCount_le : column.nullCount.toInt ≤ column.rowCount.toInt
  bitOffset_nonneg : 0 ≤ column.bitOffset.toInt
  validity_covers : 0 < column.rowCount.toInt →
    column.bitOffset.toInt + column.rowCount.toInt ≤ 8 * (column.validity.length : Int)

theorem headerError?_eq_none_iff (column : Column) :
    column.headerError? = none ↔ column.HeaderValid := by
  have zero : (0 : Int32).toInt = 0 := rfl
  unfold headerError?
  simp only [Int32.lt_iff_toInt_lt, zero]
  constructor
  · intro noError
    split at noError
    · exact nomatch noError
    · rename_i counts
      split at noError
      · exact nomatch noError
      · rename_i covered
        exact ⟨by omega, by omega, by omega, by omega⟩
  · intro valid
    have nullCountNonneg := valid.nullCount_nonneg
    have nullCountLe := valid.nullCount_le
    have bitOffsetNonneg := valid.bitOffset_nonneg
    have validityCovers := valid.validity_covers
    rw [if_neg (by omega), if_neg (by omega)]

/-- Each offset is at most its successor, the last one at most the end of the values. -/
def OffsetsOrdered (valueBytes : Nat) : List UInt32 → Prop
  | [] => True
  | offset :: rest =>
    offset.toNat ≤ (rest.head?.map UInt32.toNat).getD valueBytes ∧ OffsetsOrdered valueBytes rest

theorem offsetErrorFrom?_eq_none_iff (valueBytes index : Nat) (offsets : List UInt32) :
    offsetErrorFrom? valueBytes index offsets = none ↔ OffsetsOrdered valueBytes offsets := by
  induction offsets generalizing index with
  | nil => simp [offsetErrorFrom?, OffsetsOrdered]
  | cons offset rest ih =>
    simp only [offsetErrorFrom?, OffsetsOrdered]
    split <;> rename_i order
    · simp [Nat.not_le.mpr order]
    · simp [Nat.not_lt.mp order, ih]

theorem offsetError?_eq_none_iff (column : Column) :
    column.offsetError? = none ↔ OffsetsOrdered column.values.length column.offsets :=
  offsetErrorFrom?_eq_none_iff _ _ _

end Column

end Columnar
