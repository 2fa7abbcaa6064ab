import Columnar.Proofs.Batch.Wire
import Columnar.Proofs.Guarded
import Columnar.Proofs.Wire.Guarded
import Columnar.Proofs.Wire.Stream

/-!
# Sizes and what is written

The size of a batch, of a field and of a column is worked out by functions of its own, and the
size of an entry is written before the entry is.  Both have to say how many bytes are written
(`appendTo_sizes`), or no reader finds the next entry.

A size that is worked out in signed words is the word of the size in natural numbers
(`Batch.size?_eq`), whichever of its parts is large.  So a batch whose size fits a word has sizes
for all of its entries too.
-/

namespace Columnar

open Guarded Wire

/-! ## Guarded sizes -/

@[simp] theorem Wire.textSize?_eq (value : Bytes) :
    Wire.textSize? value = length? (textSize value) :=
  sum?_length? value.length 2

@[simp] theorem Wire.bufferSize?_eq (value : Bytes) :
    Wire.bufferSize? value = length? (bufferSize value) :=
  sum?_length? value.length 4

@[simp] theorem Wire.uint32sSize?_eq (values : List UInt32) :
    Wire.uint32sSize? values = length? (uint32sSize values) := by
  rw [uint32sSize?, product?_length? values.length (by decide) (by decide), sum?_length?,
    uint32sSize, Nat.mul_comm]

@[simp] theorem Field.size?_eq (field : Field) : field.size? = length? field.size := by
  simp [size?, size]

@[simp] theorem Column.size?_eq (column : Column) : column.size? = length? column.size := by
  rw [size?, product?_length? 8 (by decide) (by decide)]
  simp [size]

namespace Batch

section Entries

variable {α : Type} {size? : α → Option Int32} {size : α → Nat} {write : α → Bytes}

theorem addEntries?_eq (sizes : ∀ value, size? value = length? (size value))
    (values : List α) (total : Nat) :
    addEntries? size? values (length? total) =
      length? (total + values.foldr (fun value rest => 4 + size value + rest) 0) := by
  induction values generalizing total with
  | nil => rfl
  | cons value rest ih =>
    calc addEntries? size? (value :: rest) (length? total)
      _ = addEntries? size? rest (sum? (length? total) (sum? (length? 4) (size? value))) := rfl
      _ = addEntries? size? rest (length? (total + (4 + size value))) := by simp [sizes]
      _ = _ := by rw [ih, List.foldr_cons, Nat.add_assoc]

theorem length_flatMap_entryForm (lengthEq : ∀ value, (write value).length = size value)
    (values : List α) :
    (values.flatMap (entryForm write)).length =
      values.foldr (fun value rest => 4 + size value + rest) 0 := by
  induction values with
  | nil => rfl
  | cons value rest ih => simp [length_entryForm, lengthEq, ih]

/-- Entries one behind the other, each behind its size as a word. The size is the one that is
worked out for the value, and the number of the bytes that the value is written as. -/
inductive Entries (size? : α → Option Int32) (Writes : α → Bytes → Prop) :
    List α → Bytes → Prop
  | nil : Entries size? Writes [] []
  | cons {value : α} {size : Int32} {written : Bytes} {rest : List α} {after : Bytes}
      (sizeEq : size? value = some size) (writes : Writes value written)
      (lengthEq : size.toUInt32.toNat = written.length)
      (behind : Entries size? Writes rest after) :
      Entries size? Writes (value :: rest) (Wire.uint32 size.toUInt32 ++ written ++ after)

theorem entries_flatMap (sizes : ∀ value, size? value = length? (write value).length)
    {Writes : α → Bytes → Prop} {values : List α}
    (writes : ∀ value ∈ values, Writes value (write value))
    (lengthLt : (values.flatMap (entryForm write)).length < 2 ^ 31) :
    Entries size? Writes values (values.flatMap (entryForm write)) := by
  induction values with
  | nil => exact .nil
  | cons value rest ih =>
    -- No entry is longer than all of them, so each has a size, and the size is not negative.
    simp only [List.flatMap_cons, List.length_append, length_entryForm] at lengthLt
    obtain ⟨size, sizeEq, sizeValue⟩ := @exists_length? (write value).length (by omega)
    have unsigned : size.toUInt32.toNat = (write value).length := by
      have sizeNonneg : 0 ≤ size.toInt := by omega
      have same := GuardedReader.toNat_toUInt32 sizeNonneg
      omega
    have prefixEq : UInt32.ofNat (write value).length = size.toUInt32 := by
      rw [← unsigned, UInt32.ofNat_toNat]
    rw [List.flatMap_cons, entryForm, prefixEq]
    exact .cons ((sizes value).trans sizeEq) (writes value List.mem_cons_self) unsigned
      (ih (fun other later => writes other (List.mem_cons_of_mem value later)) (by omega))

end Entries

theorem size?_eq (batch : Batch) : batch.size? = length? batch.size := by
  rw [size?, addEntries?_eq Field.size?_eq, sum?_length?, addEntries?_eq Column.size?_eq, size]

theorem length_form (batch : Batch) : batch.form.length = batch.size := by
  simp [form, partForm, length_flatMap_entryForm Field.length_form,
    length_flatMap_entryForm Column.length_encode, size]
  omega

/-! ## Refused names -/

/-- Writing the fields stops at the first one whose name is too long. -/
theorem fieldEntries_refused {limit : Int32} (index : Nat) {before after : Schema} {field : Field}
    (earlierFit : ∀ earlier ∈ before, earlier.name.length ≤ textLimit limit)
    (tooLong : textLimit limit < field.name.length) :
    (fieldEntries limit index (before ++ field :: after)).2 =
      some ⟨index + before.length, ⟨⟨field.name.length, textLimit limit⟩⟩⟩ := by
  induction before generalizing index with
  | nil => simp [fieldEntries, field_encode_error_iff.mpr ⟨tooLong, rfl⟩]
  | cons first rest ih =>
    obtain ⟨firstFits, restFit⟩ := List.forall_mem_cons.mp earlierFit
    have place : index + 1 + rest.length = index + (first :: rest).length :=
      Nat.add_right_comm index 1 rest.length
    simp only [List.cons_append, fieldEntries, field_encode_iff.mpr ⟨firstFits, rfl⟩,
      ih (index + 1) restFit, place]

variable {limit : Int32} {buffer : Bytes} {batch : Batch}

/-- Everything is appended behind the buffer, and only a field can be refused. -/
theorem exists_appendTo (limit : Int32) (buffer : Bytes) (batch : Batch) :
    ∃ added, appendTo limit buffer batch =
      (buffer ++ added, (fieldEntries limit 0 batch.schema).2) := by
  rw [appendTo]
  generalize fieldEntries limit 0 batch.schema = entries
  obtain ⟨fields, error?⟩ := entries
  cases error? <;> simp

/-- A batch is written unless a name is too long, and the first such name is the one that is
reported. -/
theorem appendTo_cases (limit : Int32) (buffer : Bytes) (batch : Batch) :
    (∀ field ∈ batch.schema, field.name.length ≤ textLimit limit) ∧
        appendTo limit buffer batch = (buffer ++ batch.form, none) ∨
      ∃ before field after, batch.schema = before ++ field :: after ∧
        (∀ earlier ∈ before, earlier.name.length ≤ textLimit limit) ∧
        textLimit limit < field.name.length ∧
        (appendTo limit buffer batch).2 =
          some ⟨before.length, ⟨⟨field.name.length, textLimit limit⟩⟩⟩ := by
  cases found : batch.schema.find? fun field => textLimit limit < field.name.length with
  | none =>
    have fit : ∀ field ∈ batch.schema, field.name.length ≤ textLimit limit := by
      simpa using found
    exact .inl ⟨fit, (appendTo_iff batch).mpr ⟨fit, rfl⟩⟩
  | some field =>
    obtain ⟨tooLong, before, after, schemaEq, earlierFit⟩ :=
      List.find?_eq_some_iff_append.mp found
    simp only [decide_eq_true_eq, Bool.not_eq_true', decide_eq_false_iff_not, Nat.not_lt]
      at tooLong earlierFit
    refine .inr ⟨before, field, after, schemaEq, earlierFit, tooLong, ?_⟩
    obtain ⟨added, writtenEq⟩ := exists_appendTo limit buffer batch
    rw [writtenEq, schemaEq, fieldEntries_refused 0 earlierFit tooLong, Nat.zero_add]

/-! ## Sizes of entries -/

/-- A form whose names are not too long consists of entries that say their sizes. -/
theorem exists_entries (fit : ∀ field ∈ batch.schema, field.name.length ≤ textLimit limit)
    (sizeLt : batch.size < 2 ^ 31) :
    ∃ fields columns,
      batch.form = Wire.uint32 (UInt32.ofNat batch.schema.length) ++ fields ++
        Wire.uint32 (UInt32.ofNat batch.columns.length) ++ columns ∧
      Entries Field.size? (fun field bytes => field.encode limit = .ok bytes)
        batch.schema fields ∧
      Entries Column.size? (fun column bytes => column.encode = bytes) batch.columns columns := by
  simp only [← length_form, form, partForm, List.length_append] at sizeLt
  refine ⟨batch.schema.flatMap (entryForm Field.form),
    batch.columns.flatMap (entryForm Column.encode), ?_, ?_, ?_⟩
  · simp only [form, partForm, List.append_assoc]
  · apply entries_flatMap (fun field => field.length_form ▸ field.size?_eq) _ (by omega)
    exact fun field member => field_encode_iff.mpr ⟨fit field member, rfl⟩
  · apply entries_flatMap (fun column => column.length_encode ▸ column.size?_eq) _ (by omega)
    exact fun _ _ => rfl

/-- What is appended for a batch whose size is the number of a signed word. The earlier content of
the buffer stays in front. The batch is refused exactly for a name longer than the limit in force,
and the place of the first such name is reported. Otherwise as many bytes are appended as the
batch's size says: the number of the fields, the fields, the number of the columns and the columns,
each field and each column behind the number of its own bytes. -/
theorem appendTo_sizes (limit : Int32) (buffer : Bytes) {batch : Batch}
    (sizeLt : batch.size < 2 ^ 31) :
    let bound := max 0 (min limit.toInt 65535)
    let (written, error?) := appendTo limit buffer batch
    buffer <+: written ∧
      (error? ≠ none ↔ ∃ field ∈ batch.schema, bound < field.name.length) ∧
      (∀ error, error? = some error →
        ∃ before field after, batch.schema = before ++ field :: after ∧
          (∀ earlier ∈ before, earlier.name.length ≤ bound) ∧ bound < field.name.length ∧
          error = ⟨before.length, ⟨⟨field.name.length, bound.toNat⟩⟩⟩ ∧
          error.message =
            Bytes.within (Bytes.ofString s!"marshal field {before.length}")
              error.cause.message) ∧
      (error? = none → ∃ size fields columns,
        batch.size? = some size ∧ written.length = buffer.length + size.toInt ∧
          written = buffer ++ Wire.uint32 (UInt32.ofNat batch.schema.length) ++ fields ++
            Wire.uint32 (UInt32.ofNat batch.columns.length) ++ columns ∧
          Entries Field.size? (fun field bytes => field.encode limit = .ok bytes)
            batch.schema fields ∧
          Entries Column.size? (fun column bytes => column.encode = bytes)
            batch.columns columns) := by
  simp only [← natCast_textLimit, Int.ofNat_lt, Int.ofNat_le, Int.toNat_natCast]
  obtain ⟨added, behindBuffer⟩ := exists_appendTo limit buffer batch
  refine ⟨⟨added, (congrArg Prod.fst behindBuffer).symm⟩, ?_⟩
  rcases appendTo_cases limit buffer batch with
    ⟨fit, written_eq⟩ | ⟨before, field, after, schema_eq, earlier_fit, too_long, error_eq⟩
  · obtain ⟨size, sizeEq, sizeValue⟩ := exists_length? sizeLt
    obtain ⟨fields, columns, formEq, fieldsSized, columnsSized⟩ := exists_entries fit sizeLt
    simp only [written_eq]
    refine ⟨by simpa using fit, nofun, fun _ => ⟨size, fields, columns,
      batch.size?_eq.trans sizeEq, ?_, ?_, fieldsSized, columnsSized⟩⟩
    · rw [List.length_append, length_form, sizeValue, Nat.cast_add]
    · rw [formEq]
      simp only [List.append_assoc]
  · simp only [error_eq, Option.some.injEq]
    refine ⟨⟨fun _ => ⟨field, by simp [schema_eq], too_long⟩, fun _ => nofun⟩, ?_, nofun⟩
    rintro error rfl
    exact ⟨before, field, after, schema_eq, earlier_fit, too_long, rfl, rfl⟩

/-- Three fields and one column; a limit of two bytes refuses the second name and the third. -/
def longNames : Batch :=
  ⟨[⟨[97, 98], .integer⟩, ⟨[97, 98, 99], .string⟩, ⟨[97, 98, 99, 100], .string⟩],
    [⟨2, 1, 0, [120], [1], [0, 1]⟩]⟩

theorem appendTo_longNames :
    longNames.size < 2 ^ 31 ∧
      (∃ error, (appendTo 2 [9] longNames).2 = some error ∧ error.index = 1 ∧
        error.message =
          Bytes.within (Bytes.ofString s!"marshal field {1}") error.cause.message) ∧
      ∃ size, longNames.size? = some size ∧ (appendTo 4 [9] longNames).2 = none ∧
        (appendTo 4 [9] longNames).1.length = 1 + size.toInt := by
  have sizeLt : longNames.size < 2 ^ 31 := by decide
  have refused : (appendTo 2 [9] longNames).2 = some ⟨1, ⟨⟨3, 2⟩⟩⟩ := by decide
  have accepted : (appendTo 4 [9] longNames).2 = none := by decide
  obtain ⟨-, -, firstRefused, -⟩ := appendTo_sizes 2 [9] sizeLt
  obtain ⟨before, field, -, -, -, -, errorEq, messageEq⟩ := firstRefused _ refused
  obtain ⟨-, -, -, sizes⟩ := appendTo_sizes 4 [9] sizeLt
  obtain ⟨size, -, -, sizeEq, lengthEq, -⟩ := sizes accepted
  have place : before.length = 1 := (congrArg EncodeError.index errorEq).symm
  rw [place] at messageEq
  exact ⟨sizeLt, ⟨_, refused, rfl, messageEq⟩, size, sizeEq, accepted, lengthEq⟩

end Batch

end Columnar
