import Columnar.Proofs.Batch.NameOrder
import Columnar.Proofs.Column.Layout

/-!
# What validation certifies

Each check is matched with what it leaves true, and `validate_ok_iff` puts the checks together.
A valid batch comes out either as it was, if its value fields ascend, or rearranged, if no two
neighbours of the rearranged fields have one name.

In both cases the names ascend strictly up to the last one, which is the time name.  In the first
case, though, names are compared as they are, and a second time field can stand among the value
fields, in its place between the names before and behind it.
-/

namespace Columnar.Batch

variable {batch : Batch}

/-! ## The checks -/

theorem repeatedNameFrom?_eq_none_iff (index : Nat) (schema : Schema) :
    repeatedNameFrom? index schema = none ↔ (schema.map Field.name).IsChain (· ≠ ·) := by
  induction schema generalizing index with
  | nil => simp [repeatedNameFrom?]
  | cons first rest ih =>
    cases rest with
    | nil => simp [repeatedNameFrom?]
    | cons second others =>
      rw [repeatedNameFrom?, List.map_cons, List.map_cons, List.isChain_cons_cons,
        ← List.map_cons]
      split
      next same =>
        constructor
        · intro noError
          cases noError
        · rintro ⟨different, -⟩
          exact absurd same.symm different
      next different =>
        rw [ih (index + 1)]
        constructor
        · intro distinct
          exact ⟨fun same => different same.symm, distinct⟩
        · exact And.right

/-- What the schema and the time column promise. -/
structure SchemaValid (batch : Batch) : Prop where
  column_per_field : batch.schema.length = batch.columns.length
  several : 1 < batch.schema.length
  last_name : (batch.fieldAt (batch.schema.length - 1)).name = Field.timeName
  last_type : (batch.fieldAt (batch.schema.length - 1)).type = .integer
  last_nulls : (batch.columnAt (batch.schema.length - 1)).nullCount = 0
  distinct : batch.names.IsChain (· ≠ ·)

theorem schemaError?_eq_none_iff (batch : Batch) :
    batch.schemaError? = none ↔ batch.SchemaValid := by
  rw [schemaError?]
  constructor
  · intro noError
    split at noError
    next => cases noError
    next counts =>
      split at noError
      next => cases noError
      next time =>
        split at noError
        next => cases noError
        next type =>
          split at noError
          next => cases noError
          next nulls =>
            rw [not_or, Decidable.not_not] at time
            exact ⟨Decidable.not_not.mp counts, Nat.lt_of_not_le time.1, time.2,
              Decidable.not_not.mp type, Decidable.not_not.mp nulls,
              (repeatedNameFrom?_eq_none_iff 1 batch.schema).mp noError⟩
  · rintro ⟨columnPerField, several, lastName, lastType, lastNulls, distinct⟩
    have time : ¬(batch.schema.length ≤ 1 ∨
        (batch.fieldAt (batch.schema.length - 1)).name ≠ Field.timeName) := by
      rw [not_or, Decidable.not_not]
      exact ⟨Nat.not_le_of_lt several, lastName⟩
    rw [if_neg (not_not_intro columnPerField), if_neg time, if_neg (not_not_intro lastType),
      if_neg (not_not_intro lastNulls)]
    exact (repeatedNameFrom?_eq_none_iff 1 batch.schema).mpr distinct

theorem contentError?_eq_none_iff (batch : Batch) (index : Nat) :
    batch.contentError? index = none ↔
      (batch.columnAt index).layoutError? (batch.fieldAt index).type = none := by
  rw [contentError?]
  split
  next wrong =>
    -- The size of the values is checked again as a part of the layout.
    constructor
    · intro noError
      cases noError
    · intro noError
      obtain ⟨noText, differs⟩ := wrong
      rw [Column.layoutError?] at noError
      split at noError
      next => cases noError
      next =>
        rw [noText, if_neg Bool.false_ne_true, if_neg differs] at noError
        cases noError
  next => exact Option.map_eq_none_iff

theorem rowCountError?_eq_none_iff (batch : Batch) (index : Nat) :
    batch.rowCountError? index = none ↔ (index + 1 < batch.schema.length →
      (batch.columnAt index).rowCount = (batch.columnAt (index + 1)).rowCount) := by
  rw [rowCountError?]
  split
  next wrong =>
    constructor
    · intro noError
      cases noError
    · intro same
      exact absurd (same wrong.1) wrong.2
  next right =>
    constructor
    · intro _ inside
      exact Decidable.not_not.mp fun different => right ⟨inside, different⟩
    · intro _
      rfl

theorem firstColumnError?_eq_none_iff (batch : Batch) :
    batch.firstColumnError? = none ↔ ∀ index < batch.schema.length,
      (index + 1 < batch.schema.length →
        (batch.columnAt index).rowCount = (batch.columnAt (index + 1)).rowCount) ∧
      (batch.columnAt index).layoutError? (batch.fieldAt index).type = none := by
  rw [firstColumnError?, List.findSome?_eq_none_iff]
  have one (index : Nat) : batch.columnError? index = none ↔
      (index + 1 < batch.schema.length →
        (batch.columnAt index).rowCount = (batch.columnAt (index + 1)).rowCount) ∧
      (batch.columnAt index).layoutError? (batch.fieldAt index).type = none := by
    rw [← rowCountError?_eq_none_iff, ← contentError?_eq_none_iff, columnError?]
    cases batch.rowCountError? index <;> simp
  constructor
  · intro noError index inside
    exact (one index).mp (noError index (List.mem_range.mpr inside))
  · intro valid index member
    exact (one index).mpr (valid index (List.mem_range.mp member))

/-- All columns have the same number of rows, and none contradicts itself or its field's type. -/
structure ColumnsAgree (batch : Batch) : Prop where
  same_rows : ∀ first ∈ batch.columns, ∀ second ∈ batch.columns, first.rowCount = second.rowCount
  layout : ∀ pair ∈ batch.schema.zip batch.columns, pair.2.layoutError? pair.1.type = none

theorem ColumnsAgree.rowCount_eq (agree : batch.ColumnsAgree) {column : Column}
    (member : column ∈ batch.columns) : column.rowCount = batch.rowCount := by
  cases last_eq : batch.columns.getLast? with
  | none => simp [List.getLast?_eq_none_iff.mp last_eq] at member
  | some last =>
    simp only [rowCount, last_eq, Option.map_some, Option.getD_some]
    exact agree.same_rows column member last (List.mem_of_getLast? last_eq)

/-- Each column is compared with the next one only, by which all of them are compared. -/
theorem firstColumnError?_eq_none_iff_agree
    (columnPerField : batch.schema.length = batch.columns.length) :
    batch.firstColumnError? = none ↔ batch.ColumnsAgree := by
  have columnFound {index : Nat} (inside : index < batch.columns.length) :
      batch.columnAt index = batch.columns[index] := by
    simp [columnAt, inside]
  rw [firstColumnError?_eq_none_iff]
  constructor
  · intro valid
    constructor
    · have neighbours : (batch.columns.map Column.rowCount).IsChain (· = ·) := by
        rw [List.isChain_iff_getElem]
        intro index inside
        simp only [List.length_map] at inside
        have same := (valid index (by omega)).1 (by omega)
        rw [columnFound (by omega), columnFound (by omega)] at same
        simpa using same
      have allSame := neighbours.pairwise.forall_of_forall fun _ _ => rfl
      intro first firstMem second secondMem
      exact allSame (List.mem_map_of_mem firstMem) (List.mem_map_of_mem secondMem)
    · intro pair member
      obtain ⟨index, pairAt⟩ := List.mem_iff_getElem?.mp member
      have inside : index < batch.columns.length := by
        have zipInside := (List.getElem?_eq_some_iff.mp pairAt).1
        simp only [List.length_zip] at zipInside
        omega
      rw [getElem?_zip columnPerField inside] at pairAt
      obtain rfl := Option.some.inj pairAt
      exact (valid index (by omega)).2
  · intro agree index inside
    rw [columnPerField] at inside ⊢
    constructor
    · intro nextInside
      rw [columnFound inside, columnFound nextInside]
      exact agree.same_rows _ (List.getElem_mem inside) _ (List.getElem_mem nextInside)
    · have pairAt := getElem?_zip columnPerField inside
      exact agree.layout (batch.fieldAt index, batch.columnAt index) (List.mem_of_getElem? pairAt)

theorem firstMisplaced?_eq_none_iff (batch : Batch) :
    batch.firstMisplaced? = none ↔ batch.names.dropLast.IsChain (· < ·) := by
  rw [names, firstMisplaced?, List.find?_eq_none, List.isChain_iff_getElem]
  have nameAt {index : Nat} (inside : index < batch.schema.length) :
      (batch.fieldAt index).name = batch.schema[index].name := by
    rw [fieldAt, List.getElem?_eq_getElem inside, Option.getD_some]
  have misplacedIff (index : Nat) : batch.isMisplaced index = true ↔
      0 < index ∧ index + 1 < batch.schema.length ∧
        (batch.fieldAt index).name ≤ (batch.fieldAt (index - 1)).name := by
    rw [isMisplaced, Bool.and_eq_true, Bool.and_eq_true, decide_eq_true_iff, decide_eq_true_iff,
      decide_eq_true_iff, and_assoc]
  constructor
  · intro noneMisplaced index inside
    rw [List.length_dropLast, List.length_map] at inside
    have inPlace := noneMisplaced (index + 1) (List.mem_range.mpr (by omega))
    rw [misplacedIff, Nat.add_sub_cancel, nameAt (by omega), nameAt (by omega)] at inPlace
    rw [List.getElem_dropLast, List.getElem_dropLast, List.getElem_map, List.getElem_map]
    apply List.not_le.mp
    intro behind
    exact inPlace ⟨Nat.succ_pos index, by omega, behind⟩
  · intro ascending index member misplaced
    obtain ⟨positive, inside, behind⟩ := (misplacedIff index).mp misplaced
    obtain ⟨earlier, rfl⟩ := Nat.exists_eq_add_of_le' positive
    have before := ascending earlier (by
      rw [List.length_dropLast, List.length_map]
      omega)
    rw [List.getElem_dropLast, List.getElem_dropLast, List.getElem_map, List.getElem_map] at before
    rw [Nat.add_sub_cancel, nameAt (by omega), nameAt (by omega)] at behind
    exact List.not_lt.mpr behind before

/-! ## Valid batches -/

theorem validate_ok_iff (batch : Batch) :
    batch.validate.error? = none ↔ batch.schemaError? = none ∧ batch.firstColumnError? = none ∧
      (batch.firstMisplaced? = none ∨ repeatedName? batch.sortedByName.schema = none) := by
  rw [validate]
  cases batch.schemaError? with
  | some cause => simp
  | none =>
    cases batch.firstColumnError? with
    | some cause => simp
    | none => cases batch.firstMisplaced? <;> simp

/-- The fields are moved only if nothing but a repeated name is left to be found. -/
theorem validate_cases (batch : Batch) :
    batch.validate.batch = batch ∧ (batch.validate.error? = none → batch.firstMisplaced? = none) ∨
      batch.validate.batch = batch.sortedByName ∧
        batch.validate.error? = repeatedName? batch.sortedByName.schema ∧
        batch.schemaError? = none ∧ batch.firstColumnError? = none ∧
        batch.firstMisplaced? ≠ none := by
  rw [validate]
  cases batch.schemaError? with
  | some cause => exact Or.inl ⟨rfl, nofun⟩
  | none =>
    cases batch.firstColumnError? with
    | some cause => exact Or.inl ⟨rfl, nofun⟩
    | none =>
      cases batch.firstMisplaced? with
      | none => exact Or.inl ⟨rfl, fun _ => rfl⟩
      | some index => exact Or.inr ⟨rfl, rfl, rfl, rfl, nofun⟩

/-- A valid batch stays as it is, or is rearranged if its fields are not in order. -/
theorem validate_batch_eq (valid : batch.validate.error? = none) :
    batch.validate.batch = batch ∧ batch.firstMisplaced? = none ∨
      batch.validate.batch = batch.sortedByName ∧ batch.firstMisplaced? ≠ none ∧
        repeatedName? batch.sortedByName.schema = none := by
  rcases validate_cases batch with
    ⟨unchanged, in_order⟩ | ⟨rearranged, error_eq, -, -, misplaced⟩
  · exact Or.inl ⟨unchanged, in_order valid⟩
  · exact Or.inr ⟨rearranged, misplaced, error_eq.symm.trans valid⟩

theorem SchemaValid.of_valid (valid : batch.validate.error? = none) : batch.SchemaValid :=
  (schemaError?_eq_none_iff batch).mp ((validate_ok_iff batch).mp valid).1

theorem ColumnsAgree.of_valid (valid : batch.validate.error? = none) : batch.ColumnsAgree :=
  (firstColumnError?_eq_none_iff_agree (SchemaValid.of_valid valid).column_per_field).mp
    ((validate_ok_iff batch).mp valid).2.1

/-- Validation neither loses a field or column nor parts them, whether or not it accepts the
batch. -/
theorem zip_validate_perm (batch : Batch) :
    (batch.validate.batch.schema.zip batch.validate.batch.columns).Perm
      (batch.schema.zip batch.columns) := by
  rcases validate_cases batch with ⟨unchanged, -⟩ | ⟨rearranged, -⟩
  · rw [unchanged]
  · rw [rearranged]
    exact zip_sortedByName_perm batch

theorem validate_perm (batch : Batch) :
    batch.validate.batch.schema.Perm batch.schema ∧
      batch.validate.batch.columns.Perm batch.columns := by
  rcases validate_cases batch with ⟨unchanged, -⟩ | ⟨rearranged, -, schemaOk, -⟩
  · rw [unchanged]
    exact ⟨.refl _, .refl _⟩
  · have sameLength := ((schemaError?_eq_none_iff batch).mp schemaOk).column_per_field
    rw [rearranged]
    exact ⟨schema_sortedByName_perm sameLength, columns_sortedByName_perm sameLength⟩

theorem length_columns_validate (valid : batch.validate.error? = none) :
    batch.validate.batch.columns.length = batch.validate.batch.schema.length := by
  obtain ⟨fields, columns⟩ := validate_perm batch
  rw [fields.length_eq, columns.length_eq]
  exact (SchemaValid.of_valid valid).column_per_field.symm

theorem names_validate_perm (valid : batch.validate.error? = none) :
    batch.validate.batch.names.Perm batch.names := by
  have sameLength := (SchemaValid.of_valid valid).column_per_field
  rcases validate_batch_eq valid with ⟨unchanged, -⟩ | ⟨rearranged, -⟩
  · rw [unchanged]
  · rw [rearranged]
    exact names_sortedByName_perm sameLength

/-! ## The names of a valid batch -/

theorem SchemaValid.names_eq (valid : batch.SchemaValid) :
    batch.names = batch.names.dropLast ++ [Field.timeName] := by
  have several := valid.several
  have lastInside : batch.schema.length - 1 < batch.schema.length := by omega
  have lastName := valid.last_name
  rw [fieldAt, List.getElem?_eq_getElem lastInside, Option.getD_some] at lastName
  have lastEq : batch.names.getLast? = some Field.timeName := by
    rw [List.getLast?_eq_getElem?, names, List.length_map, List.getElem?_map,
      List.getElem?_eq_getElem lastInside, Option.map_some, lastName]
  obtain ⟨front, namesEq⟩ := List.getLast?_eq_some_iff.mp lastEq
  rw [namesEq, List.dropLast_concat]

/-- If no name is repeated after the rearrangement, the time name ends the names and is not among
those before it, and was not before. -/
theorem SchemaValid.names_sortedByName (valid : batch.SchemaValid)
    (distinct : repeatedName? batch.sortedByName.schema = none) :
    ∃ front, batch.sortedByName.names = front ++ [Field.timeName] ∧ front.Pairwise (· < ·) ∧
      Field.timeName ∉ front ∧ Field.timeName ∉ batch.names.dropLast := by
  have namesEq := valid.names_eq
  have permuted := names_sortedByName_perm valid.column_per_field
  have hasTime : Field.timeName ∈ batch.sortedByName.names := by
    rw [permuted.mem_iff, namesEq]
    exact List.mem_append_right _ List.mem_cons_self
  obtain ⟨front, sortedEq, noTime, ascending⟩ :=
    Field.time_last_of_sorted (pairwise_names_sortedByName batch)
      ((repeatedNameFrom?_eq_none_iff 1 _).mp distinct) hasTime
  rw [sortedEq, namesEq, List.perm_append_right_iff] at permuted
  exact ⟨front, sortedEq, ascending, noTime, mt permuted.mem_iff.mpr noTime⟩

/-- The time name ends the names, and those before it ascend. It is among them only if it was
before. -/
theorem names_of_valid (valid : batch.validate.error? = none) :
    ∃ front, batch.validate.batch.names = front ++ [Field.timeName] ∧ front.Pairwise (· < ·) ∧
      (Field.timeName ∈ front ↔ Field.timeName ∈ batch.names.dropLast) := by
  have schemaValid := SchemaValid.of_valid valid
  rcases validate_batch_eq valid with ⟨unchanged, inOrder⟩ | ⟨rearranged, -, distinct⟩
  · rw [unchanged]
    exact ⟨batch.names.dropLast, schemaValid.names_eq,
      ((firstMisplaced?_eq_none_iff batch).mp inOrder).pairwise, Iff.rfl⟩
  · obtain ⟨front, namesEq, ascending, noTime, noneBefore⟩ :=
      schemaValid.names_sortedByName distinct
    rw [rearranged]
    exact ⟨front, namesEq, ascending, iff_of_false noTime noneBefore⟩

/-- The names of a valid batch ascend up to the time name, which is the last. They are pairwise
distinct unless the batch came with a time field among its value fields. -/
theorem validate_names (valid : batch.validate.error? = none) :
    batch.validate.batch.names.getLast? = some Field.timeName ∧
      batch.validate.batch.names.dropLast.Pairwise (· < ·) ∧
      (Field.timeName ∉ batch.validate.batch.names.dropLast ∧ batch.validate.batch.names.Nodup ↔
        Field.timeName ∉ batch.names.dropLast) := by
  obtain ⟨front, namesEq, ascending, timeIff⟩ := names_of_valid valid
  rw [namesEq, List.dropLast_concat, List.getLast?_concat, ← timeIff]
  refine ⟨rfl, ascending, And.left, ?_⟩
  intro noTime
  refine ⟨noTime, ?_⟩
  rw [List.nodup_append]
  refine ⟨ascending.imp ?_, List.pairwise_singleton _ _, ?_⟩
  · rintro first second before rfl
    exact List.lt_irrefl first before
  · rintro name member _ last rfl
    rw [List.mem_singleton.mp last] at member
    exact noTime member

/-- Three fields, of which the first two are not in order. -/
def unorderedFields : Batch :=
  ofSchema [⟨[98], .float⟩, ⟨[97], .string⟩, ⟨Field.timeName, .integer⟩]

theorem validate_unorderedFields :
    unorderedFields.validate.error? = none ∧ unorderedFields.validate.batch.names.Nodup := by
  have valid : unorderedFields.validate.error? = none := by cbv
  have oneTime : Field.timeName ∉ unorderedFields.names.dropLast := by decide
  exact ⟨valid, ((validate_names valid).2.2.mpr oneTime).2⟩

/-- Two time fields, of which the first stands in front of a field whose name follows the time
name. -/
def timeTwice : Batch :=
  ofSchema [⟨Field.timeName, .integer⟩, ⟨[122], .integer⟩, ⟨Field.timeName, .integer⟩]

/-- The time fields are not neighbours, and the names in front of the last one ascend. -/
theorem validate_timeTwice :
    timeTwice.validate.error? = none ∧ timeTwice.validate.batch = timeTwice ∧
      Field.timeName ∈ timeTwice.validate.batch.names.dropLast ∧
      ¬timeTwice.validate.batch.names.Nodup := by
  decide +kernel

end Columnar.Batch
