import Columnar.Batch.Wire
import Columnar.Proofs.Column.Layout
import Columnar.Proofs.Wire.Exact

/-!
# Entries of a written batch

The reads of fields and columns are exact because they are made of exact reads; what a column has
to satisfy besides is its layout.  From there the statement climbs one level of nesting at a time:
an entry behind its size, a list of entries, and a list behind its count.

Each level is one equivalence: the read yields a value exactly if it stands in front of the
value's written form.  The one restriction that the written form does not show is that of entry
sizes, which are read as signed numbers.
-/

namespace Columnar

open Wire Wire.Reader

/-! ## Fields and columns -/

/-- The written form of a field whose name is not refused. -/
def Field.form (field : Field) : Bytes :=
  textForm field.name ++ Wire.uint32 field.type.code.toUInt32

theorem Field.length_form (field : Field) : field.form.length = field.size := by
  rw [form, textForm, size, textSize, List.length_append, List.length_append, length_uint16,
    length_uint32, Nat.add_comm 2]

theorem Field.exact_read : Exact Field.read Field.form fun field =>
    field.name.length < UInt16.size := by
  refine (exact_text.both exact_uint32).rename
    (fun pair => ⟨pair.1, ⟨pair.2.toInt32⟩⟩) (fun field => (field.name, field.type.code.toUInt32))
    (fun _ => rfl) (fun _ => rfl) ?_ ?_
  · rintro ⟨name, code⟩ ⟨nameValid, -⟩
    exact ⟨nameValid, rfl⟩
  · rintro field nameValid
    exact ⟨⟨nameValid, trivial⟩, rfl⟩

/-- Whether the sizes of a column's buffers fit the words that they are written in. -/
structure Column.SizesFit (column : Column) : Prop where
  values_lt : column.values.length < UInt32.size
  validity_lt : column.validity.length < UInt32.size
  offsets_lt : column.offsets.length < UInt32.size

theorem Column.exact_read : Exact Column.read Column.encode Column.SizesFit := by
  have exactParts := exact_int32.both (exact_int32.both (exact_int32.both
    (exact_buffer.both (exact_buffer.both exact_uint32s))))
  refine exactParts.rename
    (fun (rowCount, nullCount, bitOffset, values, validity, offsets) =>
      ⟨rowCount, nullCount, bitOffset, values, validity, offsets⟩)
    (fun column => (column.rowCount, column.nullCount, column.bitOffset, column.values,
      column.validity, column.offsets)) (fun _ => rfl) ?_ ?_ ?_
  · intro column
    simp only [encode, List.append_assoc]
  · rintro ⟨rowCount, nullCount, bitOffset, values, validity, offsets⟩
      ⟨-, -, -, valuesLt, validityLt, offsetsLt⟩
    exact ⟨⟨valuesLt, validityLt, offsetsLt⟩, rfl⟩
  · rintro column ⟨valuesLt, validityLt, offsetsLt⟩
    exact ⟨⟨trivial, trivial, trivial, valuesLt, validityLt, offsetsLt⟩, rfl⟩

namespace Batch

/-- A read of one entry's content that succeeds exactly in front of the written form of a valid
value. -/
def ExactContent {α : Type}
    (readContent : Nat → Reader → Except DecodeError (α × Reader)) (write : α → Bytes)
    (valid : α → Prop) : Prop :=
  ∀ (index : Nat) {reader : Reader}, reader.InBounds → ∀ {value : α} {next : Reader},
    readContent index reader = .ok (value, next) ↔
      valid value ∧ reader.Consumes (write value) next

/-- A read that is exact but for a check of its value. -/
theorem exactContent {α : Type} {read : Reader → α × Reader} {write : α → Bytes}
    {valid accepted : α → Prop} (exact : Exact read write valid)
    {readContent : Nat → Reader → Except DecodeError (α × Reader)}
    (failure? : Nat → α → Reader → Option DecodeError)
    (failureIff : ∀ index value reader,
      failure? index value reader = none ↔ reader.error? = none ∧ accepted value)
    (readContentEq : ∀ index reader, readContent index reader =
      match failure? index (read reader).1 (read reader).2 with
      | some cause => .error cause
      | none => .ok (read reader)) :
    ExactContent readContent write fun value => valid value ∧ accepted value := by
  intro index reader inBounds value next
  rw [and_right_comm, ← exact.read_iff inBounds, readContentEq]
  constructor
  · intro contentEq
    split at contentEq
    next => cases contentEq
    next noFailure =>
      obtain ⟨noError, valueAccepted⟩ := (failureIff _ _ _).mp noFailure
      have readEq := Except.ok.inj contentEq
      rw [readEq] at noError valueAccepted
      exact ⟨⟨readEq, noError⟩, valueAccepted⟩
  · rintro ⟨⟨readEq, noError⟩, valueAccepted⟩
    rw [readEq, (failureIff index value next).mpr ⟨noError, valueAccepted⟩]

theorem readField_iff :
    ExactContent readField Field.form fun field => field.name.length < UInt16.size ∧ True := by
  apply exactContent Field.exact_read fun index _ reader =>
    (Field.readError? reader).map (.field index)
  · intro index field reader
    rw [Field.readError?, Option.map_map, Option.map_eq_none_iff, and_true]
  · intro index reader
    rw [readField]
    generalize Field.read reader = result
    obtain ⟨field, next⟩ := result
    cases failure : Field.readError? next <;> simp only [failure, Option.map_none, Option.map_some]

/-- A column read from outside contradicts itself in nothing that shows without its type. -/
theorem readColumn_iff :
    ExactContent readColumn Column.encode fun column =>
      column.SizesFit ∧ column.untypedError? = none := by
  apply exactContent Column.exact_read fun index column reader =>
    (column.readError? reader).map (.column index)
  · intro index column reader
    rw [Option.map_eq_none_iff, Column.readError?]
    cases reader.error? with
    | none => simp
    | some cause => simp
  · intro index reader
    unfold readColumn
    generalize Column.read reader = result
    obtain ⟨column, next⟩ := result
    cases failure : column.readError? next <;>
      simp only [failure, Option.map_none, Option.map_some]

/-! ## Entries -/

section Entries

variable {α : Type} {readContent : Nat → Reader → Except DecodeError (α × Reader)}
  {write : α → Bytes} {valid : α → Prop}

/-- The written form of an entry behind its size. -/
def entryForm (write : α → Bytes) (value : α) : Bytes :=
  Wire.uint32 (UInt32.ofNat (write value).length) ++ write value

theorem length_entryForm (write : α → Bytes) (value : α) :
    (entryForm write value).length = 4 + (write value).length := by
  rw [entryForm, List.length_append, length_uint32]

/-- A size that is read as a signed number is a length exactly if that length is below the
largest signed number. -/
private theorem length_eq_size_iff {size : UInt32} {bytes : Bytes} :
    (bytes.length : Int) = size.toInt32.toInt ↔
      bytes.length < 2 ^ 31 ∧ UInt32.ofNat bytes.length = size := by
  constructor
  · intro lengthEq
    have sizeLt := size.toNat_lt
    have upper := size.toInt32.toInt_lt
    have modulo : size.toInt32.toInt % (2 ^ 32 : Int) = size.toNat % (2 ^ 32 : Int) := by
      rw [Int32.toInt, UInt32.toBitVec_toInt32, BitVec.toInt_eq_toNat_bmod]
      exact Int.bmod_emod
    have same : size.toNat = bytes.length := by omega
    refine ⟨by omega, ?_⟩
    rw [← same, UInt32.ofNat_toNat]
  · rintro ⟨lengthLt, rfl⟩
    rw [UInt32.toInt32_ofNat', Int32.toInt_ofNat_of_lt lengthLt]

/-- The bytes of an entry stand behind their size. -/
private theorem exact_sized :
    Exact (fun reader => takeOrEmpty reader.uint32.1.toInt32.toInt reader.uint32.2)
      (entryForm fun bytes => bytes) fun bytes => bytes.length < 2 ^ 31 := by
  have exactContent (size : UInt32) : Exact (takeOrEmpty size.toInt32.toInt) (fun bytes => bytes)
      fun bytes => bytes.length < 2 ^ 31 ∧ UInt32.ofNat bytes.length = size := by
    apply (exact_takeOrEmpty size.toInt32.toInt).congr_valid
    intro bytes
    exact length_eq_size_iff
  exact exact_uint32.behind (fun bytes : Bytes => UInt32.ofNat bytes.length) exactContent

/-- An entry is read from its own bytes, which it has to use up. -/
theorem readEntry_iff (part : Part) (exactContent : ExactContent readContent write valid) :
    ExactContent (readEntry part readContent) (entryForm write) fun value =>
      valid value ∧ (write value).length < 2 ^ 31 := by
  intro index reader inBounds value next
  have sizedIff {bytes : Bytes} {behind : Reader} :
      takeOrEmpty reader.uint32.1.toInt32.toInt reader.uint32.2 = (bytes, behind) ∧
          behind.error? = none ↔
        bytes.length < 2 ^ 31 ∧ reader.Consumes (entryForm (fun bytes => bytes) bytes) behind :=
    exact_sized.read_iff inBounds
  unfold readEntry
  generalize reader.uint32 = size_read at sizedIff ⊢
  obtain ⟨size, after⟩ := size_read
  simp only at sizedIff ⊢
  generalize after.takeOrEmpty size.toInt32.toInt = bytes_read at sizedIff ⊢
  obtain ⟨bytes, behind⟩ := bytes_read
  constructor
  · intro entryEq
    simp only at entryEq
    split at entryEq
    next => cases entryEq
    next noError =>
      obtain ⟨lengthLt, consumes⟩ := sizedIff.mp ⟨rfl, noError⟩
      split at entryEq
      next => cases entryEq
      next content contentReader contentEq =>
        split at entryEq
        next usedUp =>
          obtain ⟨rfl, rfl⟩ := Prod.mk.inj (Except.ok.inj entryEq)
          obtain ⟨valueValid, contentConsumes⟩ :=
            (exactContent index (inBounds_ofBytes bytes)).mp contentEq
          have all := (contentConsumes.remaining_eq_zero_iff (inBounds_ofBytes bytes)).mp usedUp
          rw [rest_ofBytes] at all
          obtain rfl := all
          exact ⟨⟨valueValid, lengthLt⟩, consumes⟩
        next => cases entryEq
  · rintro ⟨⟨valueValid, lengthLt⟩, consumes⟩
    obtain ⟨bytesEq, noError⟩ := sizedIff.mpr ⟨lengthLt, consumes⟩
    obtain ⟨rfl, rfl⟩ := Prod.mk.inj bytesEq
    have ownConsumes := consumes_ofBytes (write value)
    have contentEq := (exactContent index (inBounds_ofBytes (write value))).mpr
      ⟨valueValid, ownConsumes⟩
    have usedUp := (ownConsumes.remaining_eq_zero_iff (inBounds_ofBytes (write value))).mpr
      (rest_ofBytes (write value))
    simp only [noError, contentEq, usedUp, if_true]

/-- A list of entries. -/
theorem readEntries_iff (part : Part) (exactContent : ExactContent readContent write valid)
    {count : Nat} (index : Nat) {reader : Reader} (inBounds : reader.InBounds) {values : List α}
    {next : Reader} :
    readEntries part readContent index count reader = .ok (values, next) ↔
      values.length = count ∧ (∀ value ∈ values, valid value ∧ (write value).length < 2 ^ 31) ∧
        reader.Consumes (values.flatMap (entryForm write)) next := by
  induction count generalizing index reader values with
  | zero =>
    rw [readEntries, List.length_eq_zero_iff]
    constructor
    · intro entriesEq
      obtain ⟨rfl, rfl⟩ := Prod.mk.inj (Except.ok.inj entriesEq)
      exact ⟨rfl, List.forall_mem_nil _, rfl, rfl⟩
    · rintro ⟨rfl, -, consumes⟩
      rw [consumes.next_eq]
      rfl
  | succ count ih =>
    rw [readEntries]
    constructor
    · intro entriesEq
      split at entriesEq
      next => cases entriesEq
      next value behind entryEq =>
        split at entriesEq
        next => cases entriesEq
        next rest last restEq =>
          obtain ⟨rfl, rfl⟩ := Prod.mk.inj (Except.ok.inj entriesEq)
          obtain ⟨valueValid, consumes⟩ :=
            (readEntry_iff part exactContent index inBounds).mp entryEq
          obtain ⟨lengthEq, restValid, restConsumes⟩ :=
            (ih (index + 1) (consumes.inBounds inBounds)).mp restEq
          refine ⟨congrArg Nat.succ lengthEq, ?_, consumes.append restConsumes⟩
          intro other member
          rcases List.mem_cons.mp member with rfl | later
          · exact valueValid
          · exact restValid other later
    · rintro ⟨lengthEq, allValid, consumes⟩
      cases values with
      | nil => cases lengthEq
      | cons value rest =>
        obtain ⟨firstConsumes, restConsumes⟩ := consumes.split inBounds
        have entryEq := (readEntry_iff part exactContent index inBounds).mpr
          ⟨allValid value List.mem_cons_self, firstConsumes⟩
        have restEq := (ih (index + 1) (firstConsumes.inBounds inBounds)).mpr
          ⟨Nat.succ.inj lengthEq,
            fun other member => allValid other (List.mem_cons_of_mem value member),
            restConsumes⟩
        rw [entryEq]
        simp only [restEq]

/-- The written form of a list of entries behind its count. -/
def partForm (write : α → Bytes) (values : List α) : Bytes :=
  Wire.uint32 (UInt32.ofNat values.length) ++ values.flatMap (entryForm write)

theorem length_entries_ge (write : α → Bytes) (values : List α) :
    4 * values.length ≤ (values.flatMap (entryForm write)).length := by
  induction values with
  | nil => exact Nat.le_refl 0
  | cons value rest ih =>
    have length := length_entryForm write value
    rw [List.flatMap_cons, List.length_append, List.length_cons]
    omega

theorem readPart_iff (part : Part) (exactContent : ExactContent readContent write valid)
    {reader : Reader} (inBounds : reader.InBounds) {values : List α} {next : Reader} :
    readPart part readContent reader = .ok (values, next) ↔
      (values.length < UInt32.size ∧
        ∀ value ∈ values, valid value ∧ (write value).length < 2 ^ 31) ∧
        reader.Consumes (partForm write values) next := by
  unfold readPart
  constructor
  · intro partEq
    obtain ⟨count, behind, countRead⟩ : ∃ count behind, reader.uint32 = (count, behind) :=
      ⟨_, _, rfl⟩
    simp only [countRead] at partEq
    split at partEq
    next => cases partEq
    next noError =>
      split at partEq
      next => cases partEq
      next =>
        obtain ⟨-, countConsumes⟩ := (exact_uint32.read_iff inBounds).mp ⟨countRead, noError⟩
        obtain ⟨lengthEq, allValid, consumes⟩ :=
          (readEntries_iff part exactContent 0 (countConsumes.inBounds inBounds)).mp partEq
        have countLt := count.toNat_lt
        rw [← lengthEq] at countLt
        have countEq : count = UInt32.ofNat values.length := by
          rw [lengthEq, UInt32.ofNat_toNat]
        rw [countEq] at countConsumes
        exact ⟨⟨countLt, allValid⟩, countConsumes.append consumes⟩
  · rintro ⟨⟨countLt, allValid⟩, consumes⟩
    obtain ⟨countConsumes, entriesConsume⟩ := consumes.split inBounds
    have behind := countConsumes.inBounds inBounds
    obtain ⟨countRead, noError⟩ := (exact_uint32.read_iff inBounds).mpr
      ⟨trivial, countConsumes⟩
    have countEq : (UInt32.ofNat values.length).toNat = values.length :=
      UInt32.toNat_ofNat_of_lt' countLt
    have entriesEq := (readEntries_iff part exactContent 0 behind).mpr
      ⟨rfl, allValid, entriesConsume⟩
    have enough := length_entries_ge write values
    have remaining := behind.length_rest
    rw [entriesConsume.rest_eq, List.length_append] at remaining
    simp only [countRead, noError, countEq]
    rw [if_neg (by omega)]
    exact entriesEq

theorem length_entryForm_le (write : α → Bytes) {values : List α} {value : α}
    (member : value ∈ values) :
    (write value).length < (values.flatMap (entryForm write)).length := by
  induction values with
  | nil => exact absurd member List.not_mem_nil
  | cons first rest ih =>
    rw [List.flatMap_cons, List.length_append, length_entryForm]
    rcases List.mem_cons.mp member with rfl | later
    · omega
    · have bound := ih later
      omega

end Entries

end Batch

end Columnar
