import Columnar.Batch.Listing
import Columnar.Proofs.Batch.Wire
import Columnar.Proofs.Column.Guarded

/-!
# Reading what was read

A batch that a read accepts can be read row by row.  The guarded reads of `Column.isNull?` and
`Column.textAt?` go through in all of its columns, whatever their fields say, with one exception:
the index of a bit overflows if the rows' bits reach behind the first `2 ^ 31`.  The check of the
header lets such a column pass, since it adds wider words.
-/

namespace Columnar.Batch

open Wire Wire.Reader

/-! ## Listings -/

theorem valueTexts?_eq {column : Column} (textsEq : column.texts? = some column.texts)
    (type : ValueType) : valueTexts? type column = some (valueTexts type column) := by
  rw [valueTexts?]
  split
  next text =>
    have noInteger : type ≠ .integer := by rintro rfl; cases text
    have noFloat : type ≠ .float := by rintro rfl; cases text
    have noBoolean : type ≠ .boolean := by rintro rfl; cases text
    rw [textsEq, valueTexts, if_neg noInteger, if_neg noFloat, if_neg noBoolean, if_pos text]
    rfl
  next => rfl

theorem lines?_eq {schema : Schema} {columns : List Column}
    (textsEq : ∀ column ∈ columns, column.texts? = some column.texts) :
    lines? schema columns = some (schema.zipWith columnLine columns).flatten := by
  induction schema generalizing columns with
  | nil => rfl
  | cons field schema ih =>
    cases columns with
    | nil => rfl
    | cons column columns =>
      rw [List.forall_mem_cons] at textsEq
      rw [lines?, valueTexts?_eq textsEq.1, ih textsEq.2]
      rfl

/-! ## Batches from outside -/

/-- What the reads of a batch's columns can do where the batch was itself read from bytes. A row's
null is looked up without leaving the bitmap, and fails exactly by an overflow of the bit's index.
Every text lies in the values, whether or not the field is one of texts. So the texts of a column,
and a listing of the batch, are found if no index overflows. -/
theorem readInto_bounds {bytes : Bytes} {before batch : Batch}
    (accepted : readInto (.ofBytes bytes) before = (batch, none)) :
    (∀ column ∈ batch.columns,
      (∀ row : Int32, 0 ≤ row → row < column.rowCount →
        column.isNull? row =
          if column.nullCount ≠ 0 ∧ 2 ^ 31 ≤ column.bitOffset.toInt + row.toInt then none
          else some (column.isNull row.toInt)) ∧
      (∀ row < column.offsets.length,
        column.offsetAt row ≤ column.textStop row ∧
          (column.textStop row).toNat ≤ column.values.length ∧
          column.textAt? row = some (column.textAt row)) ∧
      (column.Indexable → column.texts? = some column.texts)) ∧
    ((∀ column ∈ batch.columns, column.Indexable) → batch.listing? = some batch.listing) := by
  have readEq := (readInto_eq_iff _ before batch).mp accepted
  obtain ⟨framed, -⟩ := framed_of_read (inBounds_ofBytes bytes) readEq
  have each (column : Column) (member : column ∈ batch.columns) :
      column.values.length < UInt32.size ∧ column.HeaderValid ∧ column.OffsetsSound := by
    obtain ⟨⟨sizes, untyped⟩, -⟩ := framed.columns column member
    exact ⟨sizes.values_lt, column.untypedError?_eq_none_iff.mp untyped⟩
  constructor
  · intro column member
    obtain ⟨valuesLt, valid, sound⟩ := each column member
    refine ⟨fun row nonneg inside => Column.isNull?_of_headerValid valid nonneg inside, ?_,
      Column.texts?_eq valid sound valuesLt⟩
    intro row inside
    obtain ⟨ordered, bounded⟩ := sound.text_inside valuesLt inside
    exact ⟨ordered, bounded, sound.textAt?_eq valuesLt inside⟩
  · intro indexable
    apply lines?_eq
    intro column member
    obtain ⟨valuesLt, valid, sound⟩ := each column member
    exact Column.texts?_eq valid sound valuesLt (indexable column member)

/-- Three texts, the last of them null, whose bits start in the middle of a byte and end in the
next one. -/
def splitBits : Batch :=
  ⟨[⟨[115], .string⟩], [⟨3, 1, 6, [120, 121, 122], [192, 0], [0, 2, 3]⟩]⟩

theorem readInto_splitBits :
    readInto (.ofBytes splitBits.form) .empty = (splitBits, none) ∧
      (∀ column ∈ splitBits.columns,
        column.isNull? 1 = some (column.isNull 1) ∧ column.isNull? 2 = some (column.isNull 2) ∧
          column.textAt? 0 = some [120, 121] ∧ column.texts? = some [[120, 121], [122]]) ∧
      splitBits.listing? = some splitBits.listing := by
  have accepted : readInto (.ofBytes splitBits.form) .empty = (splitBits, none) := by
    decide +kernel
  obtain ⟨columns, listed⟩ := readInto_bounds accepted
  refine ⟨accepted, ?_, listed (by decide)⟩
  intro column member
  obtain ⟨nulls, texts, allTexts⟩ := columns column member
  obtain rfl := List.mem_singleton.mp member
  exact ⟨nulls 1 (by decide) (by decide), nulls 2 (by decide) (by decide),
    (texts 0 (by decide)).2.2, allTexts (by decide)⟩

/-! ## Bits without an index -/

/-- A column of two null rows. The index of the first one's bit is the greatest signed word. -/
def lateNulls (validity : Bytes) : Column :=
  ⟨2, 2, Int32.maxValue, [], validity, []⟩

section LateNulls

variable {validity : Bytes} (lengthEq : validity.length = 2 ^ 28 + 1)
include lengthEq

theorem headerValid_lateNulls : (lateNulls validity).HeaderValid where
  nullCount_nonneg := Int.natCast_nonneg 2
  nullCount_le := Int.le_refl 2
  bitOffset_nonneg := Int.natCast_nonneg 2147483647
  validity_covers := by
    intro _
    have offset : (lateNulls validity).bitOffset.toInt = 2 ^ 31 - 1 := rfl
    have rows : (lateNulls validity).rowCount.toInt = 2 := rfl
    have bytes : (lateNulls validity).validity.length = 2 ^ 28 + 1 := lengthEq
    omega

theorem readable_lateNulls : Readable ⟨[], [lateNulls validity]⟩ where
  names_lt := nofun
  untypedError?_eq_none := by
    intro column member
    obtain rfl := List.mem_singleton.mp member
    exact (lateNulls validity).untypedError?_eq_none_iff.mpr
      ⟨headerValid_lateNulls lengthEq, Or.inl rfl, .nil, nofun⟩

theorem length_form_lateNulls : (form ⟨[], [lateNulls validity]⟩).length = 2 ^ 28 + 49 := by
  have encoded : (lateNulls validity).encode.length = 2 ^ 28 + 37 := by
    simp only [Column.length_encode, Column.size, bufferSize, uint32sSize, lateNulls, lengthEq,
      List.length_nil]
    omega
  rw [form, partForm, partForm, List.flatMap_nil, List.flatMap_singleton, List.append_nil,
    List.length_append, List.length_append, length_uint32, length_uint32, length_entryForm, encoded]
  omega

end LateNulls

/-- With a bitmap that has a byte for the second row too, the column is read, but the index of that
row's bit overflows. -/
theorem readInto_lateNulls :
    let column := lateNulls (List.replicate (2 ^ 28 + 1) 0)
    let bytes := form ⟨[], [column]⟩
    bytes.length < 2 ^ 31 ∧ readInto (.ofBytes bytes) .empty = (⟨[], [column]⟩, none) ∧
      1 < column.rowCount ∧ column.isNull? 1 = none := by
  intro column bytes
  have lengthEq : (List.replicate (2 ^ 28 + 1) (0 : UInt8)).length = 2 ^ 28 + 1 :=
    List.length_replicate
  have lengthLt : bytes.length < 2 ^ 31 := by
    rw [length_form_lateNulls lengthEq]
    decide
  have inside : 1 < column.rowCount := by
    show (1 : Int32) < 2
    decide
  have accepted := (read_iff lengthLt _).mpr ⟨rfl, readable_lateNulls lengthEq⟩
  refine ⟨lengthLt, (readInto_eq_iff _ _ _).mpr accepted, inside, ?_⟩
  rw [Column.isNull?_of_headerValid (headerValid_lateNulls lengthEq) (by decide) inside, if_pos]
  show (2 : Int32) ≠ 0 ∧ 2 ^ 31 ≤ Int32.maxValue.toInt + (1 : Int32).toInt
  decide

end Columnar.Batch
