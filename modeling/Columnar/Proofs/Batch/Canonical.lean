import Columnar.Proofs.Batch.Revalidation

/-!
# The canonical form of a batch

A batch whose last field is that of time and whose columns agree is accepted whatever the order of
its other fields, as long as no two fields have one name.  What validation makes of it is a
canonical form: batches that differ in the order of their fields alone become equal
(`validate_of_admissible`).

That acceptance does not depend on the order has two reasons.  Distinct names have no equal
neighbours, neither before nor after the fields are moved, and the checks of the columns speak of
each column and its field alone, or of any two columns.  That the result does not depend on it
either is due to strictness: fields in the order of distinct names can be listed in one way only.
-/

namespace Columnar

namespace Field

theorem precedes_asymm {first second : Field} (before : first.precedes second = true) :
    second.precedes first = false := by
  rw [precedes] at before ⊢
  split at before
  next => cases before
  next firstOther =>
    split at before
    next secondTime => simp [secondTime]
    next secondOther =>
      simp only [decide_eq_true_eq] at before
      simp [secondOther, firstOther, List.le_of_lt before]

/-- Fields whose names ascend up to the time name are in the strict order of fields. -/
theorem pairwise_precedes {schema : Schema} {front : List Bytes}
    (namesEq : schema.map name = front ++ [timeName]) (ascending : front.Pairwise (· < ·))
    (noTime : timeName ∉ front) :
    schema.Pairwise fun first second => first.precedes second = true := by
  have names : (schema.map name).Pairwise fun first second =>
      first ≠ timeName ∧ (second = timeName ∨ first < second) := by
    rw [namesEq, List.pairwise_append]
    refine ⟨ascending.imp_of_mem ?_, List.pairwise_singleton _ _, ?_⟩
    · intro first second firstMem _ before
      exact ⟨fun time => noTime (time ▸ firstMem), Or.inr before⟩
    · intro first firstMem last lastMem
      exact ⟨fun time => noTime (time ▸ firstMem), Or.inl (List.mem_singleton.mp lastMem)⟩
  apply (List.pairwise_map.mp names).imp
  rintro first second ⟨firstOther, secondTime | before⟩
  · simp [precedes, firstOther, secondTime]
  · simp [precedes, firstOther, before]

end Field

namespace Batch

variable {batch other : Batch}

/-- A batch that has one column for each field, ends with the time field, and whose columns agree.
No two fields have one name, but they may come in any order. -/
structure Admissible (batch : Batch) : Prop where
  column_per_field : batch.schema.length = batch.columns.length
  several : 2 ≤ batch.schema.length
  last_field : batch.schema.getLast? = some ⟨Field.timeName, .integer⟩
  last_nulls : batch.columns.getLast?.map Column.nullCount = some 0
  same_rows : ∀ first ∈ batch.columns, ∀ second ∈ batch.columns, first.rowCount = second.rowCount
  layout : ∀ pair ∈ batch.schema.zip batch.columns, pair.2.layoutError? pair.1.type = none
  distinct : batch.names.Nodup

namespace Admissible

theorem schemaValid (admissible : batch.Admissible) : batch.SchemaValid := by
  have lastField : batch.fieldAt (batch.schema.length - 1) = ⟨Field.timeName, .integer⟩ := by
    rw [fieldAt, ← List.getLast?_eq_getElem?, admissible.last_field, Option.getD_some]
  constructor
  · exact admissible.column_per_field
  · exact admissible.several
  · rw [lastField]
  · rw [lastField]
  · obtain ⟨last, lastEq, noNulls⟩ := Option.map_eq_some_iff.mp admissible.last_nulls
    rw [admissible.column_per_field, columnAt, ← List.getLast?_eq_getElem?, lastEq]
    exact noNulls
  · exact List.Pairwise.isChain admissible.distinct

theorem valid (admissible : batch.Admissible) : batch.validate.error? = none := by
  have schemaValid := admissible.schemaValid
  have fields := admissible.column_per_field
  have movedDistinct : batch.sortedByName.names.Nodup :=
    (names_sortedByName_perm fields).nodup_iff.mpr admissible.distinct
  refine (validate_ok_iff batch).mpr ⟨?_, ?_, Or.inr ?_⟩
  · exact (schemaError?_eq_none_iff batch).mpr schemaValid
  · exact (firstColumnError?_eq_none_iff_agree fields).mpr
      ⟨admissible.same_rows, admissible.layout⟩
  · exact (repeatedNameFrom?_eq_none_iff 1 _).mpr (List.Pairwise.isChain movedDistinct)

/-- The time name stands behind all other names, which ascend. -/
theorem names_validate (admissible : batch.Admissible) :
    ∃ front, batch.validate.batch.names = front ++ [Field.timeName] ∧
      front.Pairwise (· < ·) ∧ Field.timeName ∉ front := by
  obtain ⟨front, namesEq, ascending, timeIff⟩ := names_of_valid admissible.valid
  have distinct := admissible.distinct
  rw [admissible.schemaValid.names_eq, List.nodup_append] at distinct
  have noTime : Field.timeName ∉ batch.names.dropLast := fun member =>
    distinct.2.2 _ member _ List.mem_cons_self rfl
  exact ⟨front, namesEq, ascending, mt timeIff.mp noTime⟩

theorem pairwise_zip_validate (admissible : batch.Admissible) :
    (batch.validate.batch.schema.zip batch.validate.batch.columns).Pairwise
      fun first second => first.1.precedes second.1 = true := by
  obtain ⟨front, namesEq, ascending, noTime⟩ := admissible.names_validate
  have ordered := Field.pairwise_precedes namesEq ascending noTime
  rw [← List.map_fst_zip (Nat.le_of_eq (length_columns_validate admissible.valid).symm)] at ordered
  exact List.pairwise_map.mp ordered

/-- Fields and columns that are paired in the same way become the same batch. -/
theorem validate_eq (admissible : batch.Admissible) (otherAdmissible : other.Admissible)
    (permuted : (other.schema.zip other.columns).Perm (batch.schema.zip batch.columns)) :
    other.validate.batch = batch.validate.batch := by
  apply eq_of_zip_eq
  · exact (length_columns_validate otherAdmissible.valid).symm
  · exact (length_columns_validate admissible.valid).symm
  · apply List.Perm.eq_of_pairwise _ otherAdmissible.pairwise_zip_validate
      admissible.pairwise_zip_validate
    · exact (zip_validate_perm other).trans (permuted.trans (zip_validate_perm batch).symm)
    · intro first second _ _ before behind
      rw [Field.precedes_asymm before] at behind
      cases behind

end Admissible

/-- A batch of distinct names, with the time field last and columns that agree, is accepted. Its
pairs of a field and a column are then in the strict order of names up to the time field, in
whatever order they came. -/
theorem validate_of_admissible (admissible : batch.Admissible) :
    batch.validate.error? = none ∧
      batch.validate.batch.schema.length = batch.validate.batch.columns.length ∧
      (batch.validate.batch.schema.zip batch.validate.batch.columns).Perm
        (batch.schema.zip batch.columns) ∧
      (∃ front, batch.validate.batch.names = front ++ [Field.timeName] ∧
        front.Pairwise (· < ·) ∧ Field.timeName ∉ front) ∧
      ∀ other : Batch, other.Admissible →
        (other.schema.zip other.columns).Perm (batch.schema.zip batch.columns) →
          other.validate.error? = none ∧ other.validate.batch = batch.validate.batch := by
  have paired := (length_columns_validate admissible.valid).symm
  refine ⟨admissible.valid, paired, zip_validate_perm batch, admissible.names_validate, ?_⟩
  intro other otherAdmissible permuted
  exact ⟨otherAdmissible.valid, admissible.validate_eq otherAdmissible permuted⟩

/-- Two rows of a text, of which the second is null, and of a truth value. The bitmap of the texts
starts at its third bit. -/
def textsAndFlags : Batch where
  schema := [⟨[98], .string⟩, ⟨[97], .boolean⟩, ⟨Field.timeName, .integer⟩]
  columns := [
    ⟨2, 1, 2, [120], [0b100], [0, 1]⟩,
    Column.empty.appendEach Column.appendBoolean [true, false],
    Column.empty.appendEach Column.appendInteger [5, 3]]

theorem validate_textsAndFlags :
    let ordered := textsAndFlags.exchangeColumns 0 1
    textsAndFlags.Admissible ∧ ordered.Admissible ∧
      (ordered.schema.zip ordered.columns).Perm (textsAndFlags.schema.zip textsAndFlags.columns) ∧
      textsAndFlags.validate.error? = none ∧ ordered.validate.error? = none ∧
      ordered.validate.batch = textsAndFlags.validate.batch := by
  intro ordered
  have admissible : textsAndFlags.Admissible := by
    constructor <;> decide +kernel
  have orderedAdmissible : ordered.Admissible := by
    constructor <;> decide +kernel
  have permuted : (ordered.schema.zip ordered.columns).Perm
      (textsAndFlags.schema.zip textsAndFlags.columns) := by
    decide +kernel
  obtain ⟨valid, -, -, -, canonical⟩ := validate_of_admissible admissible
  obtain ⟨orderedValid, same⟩ := canonical ordered orderedAdmissible permuted
  exact ⟨admissible, orderedAdmissible, permuted, valid, orderedValid, same⟩

end Batch

end Columnar
