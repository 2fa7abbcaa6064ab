import Columnar.Proofs.Batch.Validation
import Columnar.Proofs.Batch.Wire

/-!
# Valid batches on the wire

A valid batch can be written.  Whether it can be read back depends on the one thing that validation
leaves to chance: offsets of columns that hold no texts.  Their type has no use for them, so they
are not looked at before the batch is written, but a reader, who does not know the type, takes them
for offsets of texts.
-/

namespace Columnar.Batch

open Wire

/-- What is known of a column by its type and what is looked at without it differ in the offsets
of columns that hold no texts. -/
theorem untypedError?_eq_none_iff_of_layout {type : ValueType} {column : Column}
    (layout : column.layoutError? type = none) :
    column.untypedError? = none ↔ (type.isText = false → column.OffsetsSound) := by
  obtain ⟨headerValid, buffersFit⟩ := (column.layoutError?_eq_none_iff type).mp layout
  rw [column.untypedError?_eq_none_iff]
  constructor
  · rintro ⟨-, sound⟩ -
    exact sound
  · intro sound
    refine ⟨headerValid, ?_⟩
    cases text : type.isText with
    | false => exact sound text
    | true =>
      rw [ValueType.isText_iff.mp text] at buffersFit
      exact column.offsetsSound_iff.mpr ⟨Or.inr buffersFit.1, buffersFit.2⟩

variable {batch : Batch}

theorem readable_validate_iff (valid : batch.validate.error? = none)
    (namesLt : ∀ name ∈ batch.names, name.length < UInt16.size) :
    batch.validate.batch.Readable ↔
      ∀ pair ∈ batch.schema.zip batch.columns, pair.1.type.isText = false →
        pair.2.OffsetsSound := by
  have permuted := zip_validate_perm batch
  have layout := (ColumnsAgree.of_valid valid).layout
  constructor
  · intro readable pair member
    have columnMem := (List.of_mem_zip (permuted.mem_iff.mpr member)).2
    exact (untypedError?_eq_none_iff_of_layout (layout pair member)).mp
      (readable.untypedError?_eq_none pair.2 columnMem)
  · intro sound
    constructor
    · intro field member
      have nameMem : field.name ∈ batch.validate.batch.names := List.mem_map_of_mem member
      exact namesLt field.name ((names_validate_perm valid).mem_iff.mp nameMem)
    · intro column member
      rw [← List.map_snd_zip (Nat.le_of_eq (length_columns_validate valid))] at member
      obtain ⟨pair, pairMem, rfl⟩ := List.mem_map.mp member
      have pairMem := permuted.mem_iff.mp pairMem
      exact (untypedError?_eq_none_iff_of_layout (layout pair pairMem)).mpr (sound pair pairMem)

/-- A valid batch is always written, and read back exactly if the offsets of columns without texts
are sound. -/
theorem readInto_validate_iff {limit : Int32} (limitGe : 65535 ≤ limit.toInt)
    (valid : batch.validate.error? = none)
    (namesLe : ∀ name ∈ batch.names, name.length ≤ 65535) (before : Batch) :
    ∃ bytes, appendTo limit [] batch.validate.batch = (bytes, none) ∧
      (bytes.length < 2 ^ 31 →
        (readInto (.ofBytes bytes) before = (batch.validate.batch, none) ↔
          ∀ pair ∈ batch.schema.zip batch.columns, pair.1.type.isText = false →
            pair.2.OffsetsSound)) := by
  have limitEq : textLimit limit = 65535 := Nat.min_eq_right (by omega)
  have size : UInt16.size = 65536 := rfl
  have written : appendTo limit [] batch.validate.batch =
      (batch.validate.batch.form, none) := by
    apply (appendTo_iff batch.validate.batch).mpr
    refine ⟨?_, (List.nil_append _).symm⟩
    intro field member
    have nameMem : field.name ∈ batch.validate.batch.names := List.mem_map_of_mem member
    rw [limitEq]
    exact namesLe field.name ((names_validate_perm valid).mem_iff.mp nameMem)
  refine ⟨batch.validate.batch.form, written, ?_⟩
  intro lengthLt
  have namesLt : ∀ name ∈ batch.names, name.length < UInt16.size := by
    intro name member
    have nameLe := namesLe name member
    omega
  rw [readInto_eq_iff, read_iff lengthLt, readable_validate_iff valid namesLt]
  exact and_iff_right rfl

/-- A column of two integers and their timestamps. -/
def twoReadings : Batch where
  schema := [⟨[118], .integer⟩, ⟨Field.timeName, .integer⟩]
  columns := [
    Column.empty.appendEach Column.appendInteger [7, 8],
    Column.empty.appendEach Column.appendInteger [1, 2]]

theorem readInto_twoReadings :
    65535 ≤ maxTextLimit.toInt ∧ twoReadings.validate.error? = none ∧
      (∀ name ∈ twoReadings.names, name.length ≤ 65535) ∧
      ∃ bytes, appendTo maxTextLimit [] twoReadings.validate.batch = (bytes, none) ∧
        bytes.length < 2 ^ 31 ∧
        readInto (.ofBytes bytes) .empty = (twoReadings.validate.batch, none) := by
  have limitGe : 65535 ≤ maxTextLimit.toInt := by decide
  have valid : twoReadings.validate.error? = none := by decide +kernel
  have namesLe : ∀ name ∈ twoReadings.names, name.length ≤ 65535 := by decide
  have sound : ∀ pair ∈ twoReadings.schema.zip twoReadings.columns,
      pair.1.type.isText = false → pair.2.OffsetsSound := by
    intro pair member _
    rcases List.mem_cons.mp member with rfl | member
    · exact ⟨Or.inl rfl, .nil, nofun⟩
    · obtain rfl := List.mem_singleton.mp member
      exact ⟨Or.inl rfl, .nil, nofun⟩
  obtain ⟨bytes, written, readIff⟩ := readInto_validate_iff limitGe valid namesLe .empty
  have lengthLt : (appendTo maxTextLimit [] twoReadings.validate.batch).1.length < 2 ^ 31 := by
    decide +kernel
  rw [written] at lengthLt
  exact ⟨limitGe, valid, namesLe, bytes, written, lengthLt, (readIff lengthLt).mpr sound⟩

/-- The same columns, with one offset in the first. -/
def strayOffset : Batch :=
  { twoReadings with
    columns := [
      { Column.empty.appendEach Column.appendInteger [7, 8] with offsets := [0] },
      Column.empty.appendEach Column.appendInteger [1, 2]] }

/-- One offset for two rows is no matter to the validation of integers, but the reader refuses
it. -/
theorem readInto_strayOffset :
    strayOffset.validate.error? = none ∧ strayOffset.validate.batch = strayOffset ∧
      (appendTo maxTextLimit [] strayOffset).2 = none ∧
      (readInto (.ofBytes (appendTo maxTextLimit [] strayOffset).1) .empty).2 =
        some (.column 0 (.layout (.offsetCount 1 2))) := by
  decide +kernel

end Columnar.Batch
