import Columnar.Proofs.Batch.Validation

/-!
# What validation changes

Validation moves the fields of a batch if they are not in order, each with its column.  There is one
way to do so (`Rearranges`), and it is done behind all other checks: a batch that is refused stays
as it was, unless two fields of one name have only become neighbours by the move
(`validate_changes`).

A batch that validation accepts is accepted again and not changed any more (`validate_validate`).
The fields that were moved have to pass the checks of their order, which compare names as they are,
and the last place has to be that of the time column.  Both follow from the names being distinct
behind the move: the time field is the only one of its name then, so it is last, and the column
that came last is still the one behind it.
-/

namespace Columnar.Batch

variable {batch other : Batch}

/-! ## The rearrangement -/

/-- A batch has the fields and columns of another one, paired as they were, in the order of names
with the time field last. Fields of one name keep their order. -/
structure Rearranges (after before : Batch) : Prop where
  column_per_field_before : before.schema.length = before.columns.length
  column_per_field_after : after.schema.length = after.columns.length
  ordered : (after.schema.zip after.columns).Pairwise fun first second =>
    second.1.precedes first.1 = false
  stable : ∀ name,
    (after.schema.zip after.columns).filter (·.1.name = name) =
      (before.schema.zip before.columns).filter (·.1.name = name)

theorem sortedByName_rearranges (columnPerField : batch.schema.length = batch.columns.length) :
    batch.sortedByName.Rearranges batch where
  column_per_field_before := columnPerField
  column_per_field_after := (length_columns_sortedByName batch).symm
  ordered := pairwise_zip_sortedByName batch
  stable := filter_zip_sortedByName batch

/-- A name that is reported as repeated is that of two neighbours. -/
theorem neighbours_of_repeatedNameFrom? {start : Nat} {schema : Schema} {cause : ValidationError}
    (found : repeatedNameFrom? start schema = some cause) :
    ∃ index name, cause = .repeatedName (start + index) name ∧
      (schema.map Field.name)[index]? = some name ∧
      (schema.map Field.name)[index + 1]? = some name := by
  induction schema generalizing start with
  | nil => simp [repeatedNameFrom?] at found
  | cons first rest ih =>
    cases rest with
    | nil => simp [repeatedNameFrom?] at found
    | cons second others =>
      rw [repeatedNameFrom?] at found
      split at found
      next same =>
        obtain rfl := Option.some.inj found
        exact ⟨0, second.name, rfl, by simp [same], by simp⟩
      next =>
        obtain ⟨index, name, causeEq, atIndex, behind⟩ := ih found
        refine ⟨index + 1, name, ?_, atIndex, behind⟩
        rw [causeEq]
        congr 1
        omega

/-! ## The time field -/

/-- There is a column for each field, and the last field is the only one with the time name. -/
structure TimeLast (batch : Batch) : Prop where
  column_per_field : batch.schema.length = batch.columns.length
  name_iff : ∀ index < batch.columns.length,
    (batch.fieldAt index).name = Field.timeName ↔ index + 1 = batch.columns.length

theorem timeLast_of_names (columnPerField : batch.schema.length = batch.columns.length)
    {front : List Bytes} (namesEq : batch.names = front ++ [Field.timeName])
    (noTime : Field.timeName ∉ front) : batch.TimeLast where
  column_per_field := columnPerField
  name_iff := by
    intro index inside
    have lengthEq := congrArg List.length namesEq
    rw [names, List.length_map, List.length_append, List.length_singleton] at lengthEq
    have fieldInside : index < batch.schema.length := by omega
    have nameAt : batch.names[index]? = some (batch.fieldAt index).name := by
      rw [names, List.getElem?_map, fieldAt, List.getElem?_eq_getElem fieldInside]
      rfl
    rw [namesEq] at nameAt
    by_cases last : index = front.length
    · rw [last, List.getElem?_append_right (Nat.le_refl _), Nat.sub_self,
        List.getElem?_cons_zero, Option.some.injEq, ← last] at nameAt
      exact iff_of_true nameAt.symm (by omega)
    · have earlier : index < front.length := by omega
      rw [List.getElem?_append_left earlier] at nameAt
      have member := List.mem_of_getElem? nameAt
      exact iff_of_false (fun same => noTime (same ▸ member)) (by omega)

/-- Rearranged fields are found with their columns, the last one in the last place. -/
theorem TimeLast.exists_place (timeLast : batch.TimeLast) (otherLast : other.TimeLast)
    (permuted : (other.schema.zip other.columns).Perm (batch.schema.zip batch.columns))
    {index : Nat} (inside : index < other.columns.length) :
    ∃ place < batch.columns.length, other.fieldAt index = batch.fieldAt place ∧
      other.columnAt index = batch.columnAt place ∧
      (index + 1 = other.columns.length ↔ place + 1 = batch.columns.length) := by
  have pairAt := getElem?_zip otherLast.column_per_field inside
  have member := permuted.mem_iff.mp (List.mem_of_getElem? pairAt)
  obtain ⟨place, placeAt⟩ := List.mem_iff_getElem?.mp member
  have placeInside : place < batch.columns.length := by
    obtain ⟨placeLt, -⟩ := List.getElem?_eq_some_iff.mp placeAt
    rw [List.length_zip] at placeLt
    omega
  rw [getElem?_zip timeLast.column_per_field placeInside, Option.some.injEq,
    Prod.mk.injEq] at placeAt
  refine ⟨place, placeInside, placeAt.1.symm, placeAt.2.symm, ?_⟩
  rw [← otherLast.name_iff index inside, ← placeAt.1, timeLast.name_iff place placeInside]

/-! ## Valid batches -/

/-- Columns agree in any order, as long as they stay with their fields. -/
theorem ColumnsAgree.rearranged (agree : batch.ColumnsAgree)
    (columns : other.columns.Perm batch.columns)
    (pairs : (other.schema.zip other.columns).Perm (batch.schema.zip batch.columns)) :
    other.ColumnsAgree where
  same_rows first first_mem second second_mem :=
    agree.same_rows first (columns.mem_iff.mp first_mem) second (columns.mem_iff.mp second_mem)
  layout pair member := agree.layout pair (pairs.mem_iff.mp member)

/-- The schema is still valid when the fields are rearranged, if that repeats no name. -/
theorem SchemaValid.sortedByName (valid : batch.SchemaValid)
    (distinct : repeatedName? batch.sortedByName.schema = none) :
    batch.sortedByName.SchemaValid ∧ batch.sortedByName.firstMisplaced? = none := by
  obtain ⟨front, namesEq, ascending, noTime, noneBefore⟩ := valid.names_sortedByName distinct
  have fields := valid.column_per_field
  have movedFields := (length_columns_sortedByName batch).symm
  have lengthEq := (columns_sortedByName_perm fields).length_eq
  have several := valid.several
  have timeLast := timeLast_of_names fields valid.names_eq noneBefore
  have movedLast := timeLast_of_names movedFields namesEq noTime
  have lastInside : batch.sortedByName.columns.length - 1 < batch.sortedByName.columns.length := by
    omega
  obtain ⟨place, -, lastField, lastColumn, lastIff⟩ :=
    timeLast.exists_place movedLast (zip_sortedByName_perm batch) lastInside
  obtain rfl : place = batch.schema.length - 1 := by omega
  constructor
  · constructor
    · exact movedFields
    · omega
    · rw [movedFields, lastField]
      exact valid.last_name
    · rw [movedFields, lastField]
      exact valid.last_type
    · rw [movedFields, lastColumn]
      exact valid.last_nulls
    · exact (repeatedNameFrom?_eq_none_iff 1 _).mp distinct
  · apply (firstMisplaced?_eq_none_iff _).mpr
    rw [namesEq, List.dropLast_concat]
    exact ascending.isChain

theorem validate_of_in_order (schemaValid : batch.SchemaValid) (agree : batch.ColumnsAgree)
    (inOrder : batch.firstMisplaced? = none) : batch.validate = ⟨batch, none, []⟩ := by
  have schemaOk := (schemaError?_eq_none_iff batch).mpr schemaValid
  have columnsOk := (firstColumnError?_eq_none_iff_agree schemaValid.column_per_field).mpr agree
  simp only [validate, schemaOk, columnsOk, inOrder]

/-- A valid batch is validated again without a change and without a report. -/
theorem validate_validate (valid : batch.validate.error? = none) :
    batch.validate.batch.validate = ⟨batch.validate.batch, none, []⟩ := by
  have schemaValid := SchemaValid.of_valid valid
  have agree := (ColumnsAgree.of_valid valid).rearranged (validate_perm batch).2
    (zip_validate_perm batch)
  rcases validate_batch_eq valid with ⟨unchanged, inOrder⟩ | ⟨rearranged, -, distinct⟩
  · rw [unchanged] at agree ⊢
    exact validate_of_in_order schemaValid agree inOrder
  · obtain ⟨movedValid, inOrder⟩ := schemaValid.sortedByName distinct
    rw [rearranged] at agree ⊢
    exact validate_of_in_order movedValid agree inOrder

/-- Validation leaves a batch as it is or rearranges it, and so neither loses nor repeats nor parts
fields and columns. What it refuses it has only rearranged if the cause is a name that two
neighbours share afterwards, and no two did before. What it accepts it does not change again. -/
theorem validate_changes (batch : Batch) :
    (batch.validate.batch = batch ∨ batch.validate.batch.Rearranges batch) ∧
      (batch.validate.batch.schema.Perm batch.schema ∧
        batch.validate.batch.columns.Perm batch.columns ∧
        (batch.validate.batch.schema.zip batch.validate.batch.columns).Perm
          (batch.schema.zip batch.columns)) ∧
      (∀ cause, batch.validate.error? = some cause →
        batch.validate.batch = batch ∨
          batch.validate.batch.Rearranges batch ∧ batch.names.IsChain (· ≠ ·) ∧
            ∃ index name, cause = .repeatedName (1 + index) name ∧
              batch.validate.batch.names[index]? = some name ∧
              batch.validate.batch.names[index + 1]? = some name) ∧
      (batch.validate.error? = none →
        batch.validate.batch.validate = ⟨batch.validate.batch, none, []⟩) := by
  obtain ⟨fields, columns⟩ := validate_perm batch
  have pairs := zip_validate_perm batch
  rcases validate_cases batch with ⟨unchanged, -⟩ | ⟨rearranged, errorEq, schemaOk, -⟩
  · exact ⟨Or.inl unchanged, ⟨fields, columns, pairs⟩, fun _ _ => Or.inl unchanged,
      validate_validate⟩
  · have schemaValid := (schemaError?_eq_none_iff batch).mp schemaOk
    have moved : batch.validate.batch.Rearranges batch := by
      rw [rearranged]
      exact sortedByName_rearranges schemaValid.column_per_field
    refine ⟨Or.inr moved, ⟨fields, columns, pairs⟩, ?_, validate_validate⟩
    intro cause refused
    have found : repeatedNameFrom? 1 batch.validate.batch.schema = some cause := by
      rw [rearranged]
      exact errorEq.symm.trans refused
    exact Or.inr ⟨moved, schemaValid.distinct, neighbours_of_repeatedNameFrom? found⟩

/-- Four fields, of which two have one name and are only neighbours when the fields are in order. -/
def partedNames : Batch :=
  ofSchema [⟨[98], .float⟩, ⟨[97], .string⟩, ⟨[98], .integer⟩, ⟨Field.timeName, .integer⟩]

theorem validate_partedNames :
    partedNames.validate.error? = some (.repeatedName 2 [98]) ∧
      partedNames.validate.batch.Rearranges partedNames ∧
      unorderedFields.validate.error? = none ∧
      unorderedFields.validate.batch.validate = ⟨unorderedFields.validate.batch, none, []⟩ := by
  have refused : partedNames.validate.error? = some (.repeatedName 2 [98]) := by cbv
  have firstName : partedNames.validate.batch.names.head? = some [97] := by cbv
  have accepted : unorderedFields.validate.error? = none := by cbv
  have moved : partedNames.validate.batch.Rearranges partedNames := by
    rcases (validate_changes partedNames).2.2.1 _ refused with unchanged | ⟨moved, -⟩
    · rw [unchanged] at firstName
      exact absurd firstName (by decide)
    · exact moved
  exact ⟨refused, moved, accepted, (validate_changes unorderedFields).2.2.2 accepted⟩

end Columnar.Batch
