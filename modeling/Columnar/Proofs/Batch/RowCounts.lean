import Columnar.Proofs.Batch.Revalidation
import Columnar.Proofs.Column.Integers

/-!
# The rows of a valid batch

Validation computes with words: counts are signed, their difference may be negative, and the size
that the values should have is a 64-bit product that wraps.  None of this lets a wrong size pass.
Behind an accepted header the counts are no negative numbers and the nulls no more than the rows, so
that the product is exact; that the product was compared before the header was checked makes no
difference, since the comparison is made again.

So there is one number of rows for all columns, which the sizes of their buffers follow from
(`rows_of_valid`).
-/

namespace Columnar

namespace Column

/-- The sizes of a column of so many rows, in plain numbers. -/
structure Measures (rows : Nat) (type : ValueType) (column : Column) : Prop where
  rowCount_eq : column.rowCount.toInt = rows
  nullCount_nonneg : 0 ≤ column.nullCount.toInt
  nullCount_le : column.nullCount.toInt ≤ rows
  bitOffset_nonneg : 0 ≤ column.bitOffset.toInt
  validity_covers : 0 < rows → column.bitOffset.toInt + rows ≤ 8 * (column.validity.length : Int)
  length_values : type.isText = false →
    column.values.length = type.width * (rows - column.nullCount.toInt.toNat)
  length_offsets : type.isText = true → column.offsets.length = rows
  offsets_ascending : type.isText = true → column.offsets.Pairwise (· ≤ ·)
  offsets_le : type.isText = true → ∀ offset ∈ column.offsets, offset.toNat ≤ column.values.length

theorem measures_of_layout {type : ValueType} {column : Column}
    (noError : column.layoutError? type = none) :
    column.Measures column.rowCount.toInt.toNat type := by
  obtain ⟨valid, fit⟩ := (column.layoutError?_eq_none_iff type).mp noError
  have nullCountNonneg := valid.nullCount_nonneg
  have nullCountLe := valid.nullCount_le
  have covers := valid.validity_covers
  have rowsEq : (column.rowCount.toInt.toNat : Int) = column.rowCount.toInt :=
    Int.toNat_of_nonneg (by omega)
  have texts (text : type.isText = true) :
      (column.offsets.length : Int) = column.rowCount.toInt ∧
        OffsetsOrdered column.values.length column.offsets := by
    rw [ValueType.isText_iff.mp text] at fit
    exact fit
  constructor
  · exact rowsEq.symm
  · exact nullCountNonneg
  · omega
  · exact valid.bitOffset_nonneg
  · omega
  · intro noText
    have other : type.storage ≠ .text := by
      intro text
      rw [ValueType.isText_iff.mpr text] at noText
      cases noText
    have lengthEq := (buffersFit_of_ne_text other column).mp fit
    have present : column.rowCount.toInt - column.nullCount.toInt =
        ((column.rowCount.toInt.toNat - column.nullCount.toInt.toNat : Nat) : Int) := by
      omega
    rw [present] at lengthEq
    exact_mod_cast lengthEq
  · intro text
    have perRow := (texts text).1
    omega
  · exact fun text => ((offsetsOrdered_iff _ _).mp (texts text).2).1
  · exact fun text => ((offsetsOrdered_iff _ _).mp (texts text).2).2

end Column

namespace Batch

variable {batch : Batch}

/-- All columns of a batch have so many rows, and there is a timestamp for each row. -/
structure Measures (rows : Nat) (batch : Batch) : Prop where
  column_per_field : batch.schema.length = batch.columns.length
  columns : ∀ pair ∈ batch.schema.zip batch.columns, pair.2.Measures rows pair.1.type
  rowCount_eq : batch.rowCount.toInt = rows
  length_times : batch.times.length = rows

theorem measures_of_valid (valid : batch.validate.error? = none) :
    batch.Measures batch.rowCount.toInt.toNat := by
  have schemaValid := SchemaValid.of_valid valid
  have agree := ColumnsAgree.of_valid valid
  have fields := schemaValid.column_per_field
  have several := schemaValid.several
  have columns : ∀ pair ∈ batch.schema.zip batch.columns,
      pair.2.Measures batch.rowCount.toInt.toNat pair.1.type := by
    intro pair member
    rw [← agree.rowCount_eq (List.of_mem_zip member).2]
    exact Column.measures_of_layout (agree.layout pair member)
  have lastInside : batch.columns.length - 1 < batch.columns.length := by omega
  have lastMem := List.mem_of_getElem? (getElem?_zip fields lastInside)
  have rowCountEq : batch.rowCount.toInt = batch.rowCount.toInt.toNat := by
    rw [← agree.rowCount_eq (List.of_mem_zip lastMem).2]
    exact (Column.measures_of_layout (agree.layout _ lastMem)).rowCount_eq
  refine ⟨fields, columns, rowCountEq, ?_⟩
  have fit := ((Column.layoutError?_eq_none_iff _ _).mp (agree.layout _ lastMem)).2
  have noNulls := schemaValid.last_nulls
  simp only [← fields] at fit
  rw [schemaValid.last_type, ValueType.storage_integer] at fit
  have count := Column.length_integers fit
  rw [noNulls, Int32.toInt_zero] at count
  rw [times_eq_integers, ← fields]
  rw [rowCount_eq_columnAt, ← fields] at rowCountEq ⊢
  omega

/-- A batch that validation accepts has one number of rows, which all sizes in it follow from, and
still has it when its fields are rearranged. -/
theorem rows_of_valid (valid : batch.validate.error? = none) :
    ∃ rows, batch.Measures rows ∧ batch.validate.batch.Measures rows := by
  have measures := measures_of_valid valid
  have again : batch.validate.batch.validate.error? = none := by rw [validate_validate valid]
  have sameRows : batch.validate.batch.rowCount = batch.rowCount := by
    have fields := (measures_of_valid again).column_per_field
    have several := (SchemaValid.of_valid again).several
    have lastInside : 0 < batch.validate.batch.columns.length := by omega
    have lastMem := List.getElem_mem lastInside
    rw [← (ColumnsAgree.of_valid again).rowCount_eq lastMem]
    exact (ColumnsAgree.of_valid valid).rowCount_eq ((validate_perm batch).2.mem_iff.mp lastMem)
  refine ⟨batch.rowCount.toInt.toNat, measures, ?_⟩
  rw [← sameRows]
  exact measures_of_valid again

/-- Two rows of texts, the second of them null, and two nulls of a type without storage, in fields
that are not in order. -/
def textsAndUnsigned : Batch where
  schema := [⟨[98], .tag⟩, ⟨[97], .unsigned⟩, ⟨Field.timeName, .integer⟩]
  columns := [
    ⟨2, 1, 7, [120, 121], [0b10000000, 0], [0, 2]⟩,
    Column.empty.appendNulls 2,
    Column.empty.appendEach Column.appendInteger [5, 3]]

theorem rows_textsAndUnsigned :
    textsAndUnsigned.validate.error? = none ∧ textsAndUnsigned.Measures 2 ∧
      textsAndUnsigned.validate.batch.Measures 2 := by
  have valid : textsAndUnsigned.validate.error? = none := by cbv
  obtain ⟨rows, measures, movedMeasures⟩ := rows_of_valid valid
  have twoRows : textsAndUnsigned.rowCount.toInt = 2 := by decide +kernel
  obtain rfl : rows = 2 := by
    have rowsEq := measures.rowCount_eq
    omega
  exact ⟨valid, measures, movedMeasures⟩

end Batch

end Columnar
