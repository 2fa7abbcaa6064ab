import Columnar.Proofs.Batch.Entries

/-!
# Which bytes are a batch

Reading and writing a batch undo each other.  `Batch.form` is what a batch is written as unless
one of its names is refused (`appendTo_iff`), and what it is read from, nothing else being
accepted (`read_iff`).  A read besides refuses columns that contradict themselves without regard
to their type.
-/

namespace Columnar.Batch

open Wire Wire.Reader

/-! ## Reading -/

/-- The written form of a batch whose names are not refused. -/
def form (batch : Batch) : Bytes :=
  partForm Field.form batch.schema ++ partForm Column.encode batch.columns

/-- A batch that is read back from its form. -/
structure Readable (batch : Batch) : Prop where
  names_lt : ∀ field ∈ batch.schema, field.name.length < UInt16.size
  untypedError?_eq_none : ∀ column ∈ batch.columns, column.untypedError? = none

/-- A batch that is readable, and whose counts and sizes fit the words that they are written in. -/
structure Framed (batch : Batch) : Prop where
  fields_lt : batch.schema.length < UInt32.size
  fields : ∀ field ∈ batch.schema,
    (field.name.length < UInt16.size ∧ True) ∧ field.form.length < 2 ^ 31
  columns_lt : batch.columns.length < UInt32.size
  columns : ∀ column ∈ batch.columns,
    (column.SizesFit ∧ column.untypedError? = none) ∧ column.encode.length < 2 ^ 31

/-- The sizes in a form are those of its parts, as long as the form is short enough. -/
private theorem column_sizesFit {column : Column} (lengthLt : column.encode.length < 2 ^ 31) :
    column.SizesFit := by
  have size : UInt32.size = 2 ^ 32 := rfl
  rw [Column.length_encode, Column.size, bufferSize, bufferSize, uint32sSize] at lengthLt
  exact ⟨by omega, by omega, by omega⟩

theorem Framed.readable {batch : Batch} (framed : batch.Framed) : batch.Readable where
  names_lt := fun field member => (framed.fields field member).1.1
  untypedError?_eq_none := fun column member => (framed.columns column member).1.2

theorem Readable.framed {batch : Batch} (readable : batch.Readable)
    (lengthLt : batch.form.length < 2 ^ 31) : batch.Framed := by
  rw [form, partForm, partForm, List.length_append, List.length_append, List.length_append]
    at lengthLt
  have size : UInt32.size = 2 ^ 32 := rfl
  have fieldsGe := length_entries_ge Field.form batch.schema
  have columnsGe := length_entries_ge Column.encode batch.columns
  constructor
  · omega
  · intro field member
    have bound := length_entryForm_le Field.form member
    exact ⟨⟨readable.names_lt field member, trivial⟩, by omega⟩
  · omega
  · intro column member
    have bound := length_entryForm_le Column.encode member
    have columnLt : column.encode.length < 2 ^ 31 := by omega
    exact ⟨⟨column_sizesFit columnLt, readable.untypedError?_eq_none column member⟩, columnLt⟩

variable {reader : Reader}

/-- A reader that stands in front of the form of a batch reads the batch, unless there are bytes
behind it. -/
theorem read_of_rest (inBounds : reader.InBounds) {batch : Batch} (framed : batch.Framed)
    {after : Bytes} (restEq : reader.rest = batch.form ++ after) :
    read reader = if after = [] then .ok batch else .error (.rest after.length) := by
  have consumes := inBounds.consumes restEq
  have remaining := (consumes.inBounds inBounds).length_rest
  rw [(inBounds.skip restEq).2] at remaining
  obtain ⟨fieldsConsume, columnsConsume⟩ := consumes.split inBounds
  have middle := fieldsConsume.inBounds inBounds
  have fieldsEq := (readPart_iff .fields readField_iff inBounds).mpr
    ⟨⟨framed.fields_lt, framed.fields⟩, fieldsConsume⟩
  have columnsEq := (readPart_iff .columns readColumn_iff middle).mpr
    ⟨⟨framed.columns_lt, framed.columns⟩, columnsConsume⟩
  rw [read, fieldsEq]
  simp only [columnsEq, ← remaining, Int.natCast_eq_zero, List.length_eq_zero_iff]

/-- What a reader reads as a batch is the form of that batch. -/
theorem framed_of_read (inBounds : reader.InBounds) {batch : Batch}
    (batchEq : read reader = .ok batch) : batch.Framed ∧ reader.rest = batch.form := by
  rw [read] at batchEq
  split at batchEq
  next => cases batchEq
  next schema behind fieldsEq =>
    split at batchEq
    next => cases batchEq
    next columns last columnsEq =>
      split at batchEq
      next usedUp =>
        obtain rfl := Except.ok.inj batchEq
        obtain ⟨⟨fieldsLt, fields⟩, fieldsConsume⟩ :=
          (readPart_iff .fields readField_iff inBounds).mp fieldsEq
        have middle := fieldsConsume.inBounds inBounds
        obtain ⟨⟨columnsLt, columns⟩, columnsConsume⟩ :=
          (readPart_iff .columns readColumn_iff middle).mp columnsEq
        have consumes := fieldsConsume.append columnsConsume
        exact ⟨⟨fieldsLt, fields, columnsLt, columns⟩,
          (consumes.remaining_eq_zero_iff inBounds).mp usedUp⟩
      next => cases batchEq

/-- A batch is read from its form and from nothing else. -/
theorem read_iff {bytes : Bytes} (lengthLt : bytes.length < 2 ^ 31) (batch : Batch) :
    read (.ofBytes bytes) = .ok batch ↔ bytes = batch.form ∧ batch.Readable := by
  have inBounds := inBounds_ofBytes bytes
  constructor
  · intro batchEq
    obtain ⟨framed, restEq⟩ := framed_of_read inBounds batchEq
    rw [rest_ofBytes] at restEq
    exact ⟨restEq, framed.readable⟩
  · rintro ⟨rfl, readable⟩
    have restEq : (Reader.ofBytes batch.form).rest = batch.form ++ [] := by
      rw [rest_ofBytes, List.append_nil]
    rw [read_of_rest inBounds (readable.framed lengthLt) restEq, if_pos rfl]

theorem readInto_eq_iff (reader : Reader) (before batch : Batch) :
    readInto reader before = (batch, none) ↔ read reader = .ok batch := by
  rw [readInto]
  cases read reader <;> simp

/-! ## Writing -/

theorem field_encode_iff {limit : Int32} {field : Field} {written : Bytes} :
    field.encode limit = .ok written ↔
      field.name.length ≤ textLimit limit ∧ written = field.form := by
  rw [Field.encode]
  cases text_eq : Wire.text limit field.name with
  | error cause =>
    obtain ⟨tooLong, -⟩ := text_eq_error_iff.mp text_eq
    simp [Nat.not_le.mpr tooLong]
  | ok name =>
    obtain ⟨fits, rfl⟩ := text_eq_ok_iff.mp text_eq
    simp only [Except.ok.injEq, fits, true_and, Field.form, textForm]
    exact eq_comm

theorem field_encode_error_iff {limit : Int32} {field : Field} {cause : Field.EncodeError} :
    field.encode limit = .error cause ↔
      textLimit limit < field.name.length ∧
        cause = ⟨⟨field.name.length, textLimit limit⟩⟩ := by
  cases text_eq : Wire.text limit field.name with
  | error tooLong =>
    obtain ⟨tooLong, rfl⟩ := text_eq_error_iff.mp text_eq
    simp [Field.encode, text_eq, tooLong, eq_comm]
  | ok written =>
    obtain ⟨fits, -⟩ := text_eq_ok_iff.mp text_eq
    simp [Field.encode, text_eq, Nat.not_lt.mpr fits]

theorem fieldEntries_iff {limit : Int32} (index : Nat) (schema : Schema) (written : Bytes) :
    fieldEntries limit index schema = (written, none) ↔
      (∀ field ∈ schema, field.name.length ≤ textLimit limit) ∧
        written = schema.flatMap (entryForm Field.form) := by
  induction schema generalizing index written with
  | nil => simp [fieldEntries, eq_comm]
  | cons field rest ih =>
    rw [fieldEntries]
    simp only
    split
    next cause encodeEq =>
      have refused : ¬field.name.length ≤ textLimit limit := by
        intro fits
        rw [field_encode_iff.mpr ⟨fits, rfl⟩] at encodeEq
        cases encodeEq
      simp [refused]
    next name encodeEq =>
      obtain ⟨fits, rfl⟩ := field_encode_iff.mp encodeEq
      have restIff := ih (index + 1) (fieldEntries limit (index + 1) rest).1
      rw [List.forall_mem_cons, List.flatMap_cons, entryForm, Field.length_form]
      constructor
      · intro entriesEq
        obtain ⟨rfl, noError⟩ := Prod.mk.inj entriesEq
        obtain ⟨restFit, restEq⟩ := restIff.mp (Prod.ext rfl noError)
        exact ⟨⟨fits, restFit⟩, by rw [restEq]⟩
      · rintro ⟨⟨-, restFit⟩, rfl⟩
        rw [(ih (index + 1) _).mpr ⟨restFit, rfl⟩]

/-- A batch is written in its form unless a name is too long. -/
theorem appendTo_iff {limit : Int32} {buffer written : Bytes} (batch : Batch) :
    appendTo limit buffer batch = (written, none) ↔
      (∀ field ∈ batch.schema, field.name.length ≤ textLimit limit) ∧
        written = buffer ++ batch.form := by
  have columnsEq : batch.columns.flatMap columnEntry =
      batch.columns.flatMap (entryForm Column.encode) := by
    apply List.flatMap_congr
    intro column _
    rw [columnEntry, entryForm, Column.length_encode]
  obtain ⟨fields, error?, entriesEq⟩ :
      ∃ fields error?, fieldEntries limit 0 batch.schema = (fields, error?) := ⟨_, _, rfl⟩
  rw [appendTo, entriesEq, columnsEq, form, partForm, partForm]
  cases error? with
  | some cause =>
    have refused : ¬∀ field ∈ batch.schema, field.name.length ≤ textLimit limit := by
      intro fits
      rw [(fieldEntries_iff 0 batch.schema _).mpr ⟨fits, rfl⟩] at entriesEq
      cases entriesEq
    simp [refused]
  | none =>
    obtain ⟨fits, rfl⟩ := (fieldEntries_iff 0 batch.schema fields).mp entriesEq
    constructor
    · intro writtenEq
      refine ⟨fits, ?_⟩
      rw [← (Prod.mk.inj writtenEq).1]
      simp only [List.append_assoc]
    · rintro ⟨-, rfl⟩
      simp only [List.append_assoc]

/-! ## Both ways -/

/-- Reading yields a batch exactly from the bytes that it is written as, if its columns do not
contradict themselves. A failed read changes nothing. -/
theorem readInto_iff_appendTo {limit : Int32} (limitGe : 65535 ≤ limit.toInt) {bytes : Bytes}
    (lengthLt : bytes.length < 2 ^ 31) (before batch : Batch) :
    (readInto (.ofBytes bytes) before = (batch, none) ↔
      appendTo limit [] batch = (bytes, none) ∧
        ∀ column ∈ batch.columns, column.HeaderValid ∧ column.OffsetsSound) ∧
    ∀ cause, (readInto (.ofBytes bytes) before).2 = some cause →
      (readInto (.ofBytes bytes) before).1 = before := by
  have limitEq : textLimit limit = 65535 := Nat.min_eq_right (by omega)
  have size : UInt16.size = 65536 := rfl
  constructor
  · rw [readInto_eq_iff, read_iff lengthLt, appendTo_iff, limitEq, List.nil_append]
    constructor
    · rintro ⟨bytesEq, readable⟩
      refine ⟨⟨?_, bytesEq⟩, ?_⟩
      · intro field member
        have nameLt := readable.names_lt field member
        omega
      · intro column member
        exact column.untypedError?_eq_none_iff.mp
          (readable.untypedError?_eq_none column member)
    · rintro ⟨⟨namesLe, bytesEq⟩, columns⟩
      refine ⟨bytesEq, ?_, ?_⟩
      · intro field member
        have nameLe := namesLe field member
        omega
      · intro column member
        exact column.untypedError?_eq_none_iff.mpr (columns column member)
  · intro cause failed
    rw [readInto] at failed ⊢
    cases read_eq : read (.ofBytes bytes) with
    | error other => rfl
    | ok decoded =>
      rw [read_eq] at failed
      cases failed

/-- One column of texts, of which the second is null. -/
def storedTexts : Batch :=
  ⟨[⟨[115], .string⟩], [⟨2, 1, 0, [120], [1], [0, 1]⟩]⟩

theorem readInto_storedTexts :
    65535 ≤ maxTextLimit.toInt ∧ storedTexts.form.length < 2 ^ 31 ∧
      readInto (.ofBytes storedTexts.form) .empty = (storedTexts, none) := by
  have limitGe : 65535 ≤ maxTextLimit.toInt := by decide
  have lengthLt : storedTexts.form.length < 2 ^ 31 := by decide
  have bothWays := readInto_iff_appendTo limitGe lengthLt .empty storedTexts
  have bounded : ∀ offset ∈ [0, 1], UInt32.toNat offset ≤ 1 := by simp
  refine ⟨limitGe, lengthLt, bothWays.1.mpr ⟨by decide, ?_⟩⟩
  intro column member
  obtain rfl := List.mem_singleton.mp member
  exact ⟨⟨by decide, by decide, by decide, by decide⟩, ⟨by decide, by decide, bounded⟩⟩

end Columnar.Batch
