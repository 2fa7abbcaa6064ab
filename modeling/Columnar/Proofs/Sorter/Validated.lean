import Columnar.Proofs.Batch.Revalidation
import Columnar.Proofs.Sorter.History
import Columnar.Proofs.Sorter.Merging

/-!
# Batches that are sorted and validated

A sort moves the rows of a batch, and validation moves its columns.  It does not matter which comes
first (`validate_sort`).

What a sort makes of a column depends on the column, its type and the timestamps alone
(`mergedColumn`), not on the place of the column or on what was sorted before it.  So a sort acts on
each pair of a field and its column alone (`zip_sort`), and it leaves the fields as they are, by
which validation rearranges the pairs.  It has to be known which pair is the one of the timestamps:
if validation moves anything, only the last field has the time name.
-/

namespace Columnar

namespace Batch

variable {batch other : Batch}

/-- Columns that merge still do when they are rearranged with their fields. -/
theorem Mergeable.rearranged (mergeable : batch.Mergeable) (timeLast : batch.TimeLast)
    (otherLast : other.TimeLast)
    (permuted : (other.schema.zip other.columns).Perm (batch.schema.zip batch.columns)) :
    other.Mergeable ∧ other.times = batch.times := by
  have someColumns := columns_pos_of_rows mergeable.some_rows
  have fields := timeLast.column_per_field
  have otherFields := otherLast.column_per_field
  have lengthEq := permuted.length_eq
  rw [List.length_zip, List.length_zip] at lengthEq
  have placeOf {index : Nat} (inside : index < other.columns.length) :=
    timeLast.exists_place otherLast permuted inside
  have lastInside : other.columns.length - 1 < other.columns.length := by omega
  obtain ⟨last, -, lastField, lastColumn, lastIff⟩ := placeOf lastInside
  obtain rfl : last = batch.columns.length - 1 := by omega
  have rowCountEq : other.rowCount = batch.rowCount := by
    rw [rowCount_eq_columnAt, rowCount_eq_columnAt, lastColumn]
  obtain ⟨-, noNulls, columns⟩ := batch.mismatch?_eq_none_iff.mp mergeable.matching
  constructor
  · exact {
      some_rows := by
        rw [rowCountEq]
        exact mergeable.some_rows
      matching := by
        refine other.mismatch?_eq_none_iff.mpr ⟨otherFields.symm, ?_, ?_⟩
        · rw [lastColumn]
          exact noNulls
        · intro index inside
          obtain ⟨place, placeInside, fieldEq, columnEq, -⟩ := placeOf inside
          rw [fieldEq, columnEq, rowCountEq]
          exact columns place placeInside
      time_storage := by
        rw [otherFields, lastField, ← fields]
        exact mergeable.time_storage
      kept := by
        intro index earlier
        obtain ⟨place, placeInside, fieldEq, -, lastIff⟩ :=
          placeOf (Nat.lt_of_succ_lt earlier)
        rw [fieldEq]
        exact mergeable.kept place (by omega)
      wellFormed := by
        intro index earlier
        obtain ⟨place, placeInside, fieldEq, columnEq, lastIff⟩ :=
          placeOf (Nat.lt_of_succ_lt earlier)
        rw [fieldEq, columnEq]
        exact mergeable.wellFormed place (by omega)
      addressable := by
        intro index earlier
        obtain ⟨place, placeInside, fieldEq, columnEq, lastIff⟩ :=
          placeOf (Nat.lt_of_succ_lt earlier)
        rw [fieldEq, columnEq]
        exact mergeable.addressable place (by omega) }
  · rw [times_eq_integers, times_eq_integers, lastColumn]

/-! ## Validity -/

/-- The columns of a valid batch can be sorted together. -/
theorem mismatch?_of_valid (valid : batch.validate.error? = none) : batch.mismatch? = none := by
  have schemaValid := SchemaValid.of_valid valid
  have agree := ColumnsAgree.of_valid valid
  have fields := schemaValid.column_per_field
  refine batch.mismatch?_eq_none_iff.mpr ⟨fields.symm, ?_, ?_⟩
  · rw [← fields]
    exact schemaValid.last_nulls
  · intro index inside
    have pairMem := List.mem_of_getElem? (getElem?_zip fields inside)
    exact ⟨agree.rowCount_eq (List.of_mem_zip pairMem).2,
      agree.layout (batch.fieldAt index, batch.columnAt index) pairMem⟩

/-- A valid batch stays valid with other columns that can be sorted together, and its fields are
moved again or left again. -/
theorem validate_of_schema_eq (valid : batch.validate.error? = none)
    (schemaEq : other.schema = batch.schema) (matching : other.mismatch? = none) :
    other.validate.error? = none ∧
      (other.firstMisplaced? = none ↔ batch.firstMisplaced? = none) := by
  obtain ⟨-, -, namesOk⟩ := (validate_ok_iff batch).mp valid
  have schemaValid := SchemaValid.of_valid valid
  obtain ⟨fields, noNulls, columns⟩ := other.mismatch?_eq_none_iff.mp matching
  have misplacedIff : other.firstMisplaced? = none ↔ batch.firstMisplaced? = none := by
    rw [firstMisplaced?_eq_none_iff, firstMisplaced?_eq_none_iff, names, schemaEq, ← names]
  refine ⟨(validate_ok_iff other).mpr ⟨?_, ?_, ?_⟩, misplacedIff⟩
  · apply (schemaError?_eq_none_iff other).mpr
    exact {
      column_per_field := fields.symm
      several := by
        rw [schemaEq]
        exact schemaValid.several
      last_name := by
        rw [fieldAt_congr schemaEq, schemaEq]
        exact schemaValid.last_name
      last_type := by
        rw [fieldAt_congr schemaEq, schemaEq]
        exact schemaValid.last_type
      last_nulls := by
        rw [← fields]
        exact noNulls
      distinct := by
        rw [names, schemaEq, ← names]
        exact schemaValid.distinct }
  · apply (firstColumnError?_eq_none_iff other).mpr
    intro index inside
    rw [← fields] at inside ⊢
    refine ⟨fun nextInside => ?_, (columns index inside).2⟩
    rw [(columns index inside).1, (columns (index + 1) nextInside).1]
  · rw [misplacedIff, schema_sortedByName fields.symm, schemaEq,
      ← schema_sortedByName schemaValid.column_per_field]
    exact namesOk

end Batch

namespace Sorter

variable {batch : Batch}

/-! ## Sorted pairs -/

/-- What a sort makes of one column of a type, given the timestamps of its rows. Nothing is made of
a column that cannot be merged. -/
def mergedColumn (times : List Int64) (type : ValueType) (source : Column) : Column :=
  match mergeColumn (TimeOrder.empty.rebuild times) source type
      (NullIndex.empty.rebuild source (times.length + 1)) .empty with
  | .ok merged => merged
  | .error _ => .empty

/-- What a sort makes of a field and its column. -/
def mergedPair (times : List Int64) (pair : Field × Column) : Field × Column :=
  (pair.1,
    if pair.1.name = Field.timeName then
      Column.empty.appendEach Column.appendInteger (TimeOrder.ascending times)
    else
      mergedColumn times pair.1.type pair.2)

theorem merges_mergedColumn (mergeable : batch.Mergeable) (order : TimeOrder) {index : Nat}
    (earlier : index + 1 < batch.columns.length) :
    Merges batch (order.rebuild batch.times)
      (fun place merged =>
        merged = mergedColumn batch.times (batch.fieldAt place).type (batch.columnAt place))
      index := by
  intro nulls
  obtain ⟨merged, mergedEq, -⟩ := mergeColumn_ok TimeOrder.empty
    (mergeable.column earlier NullIndex.empty) mergeable.some_times
  have sameRank := NullIndex.rank_rebuild (batch.columnAt index) (batch.times.length + 1) nulls
    NullIndex.empty
  refine ⟨merged, ?_, ?_⟩
  · rw [TimeOrder.length_times_rebuild, mergeColumn_congr _ _ _ sameRank,
      TimeOrder.rebuild_congr batch.times order TimeOrder.empty]
    exact mergedEq
  · simp only [mergedColumn, mergedEq]

/-- A sort acts on each field and its column alone. -/
theorem zip_sort (sorter : Sorter) (mergeable : batch.Mergeable) (timeLast : batch.TimeLast) :
    (sorter.sort batch).batch.schema.zip (sorter.sort batch).batch.columns =
      (batch.schema.zip batch.columns).map (mergedPair batch.times) := by
  have fields := timeLast.column_per_field
  obtain ⟨nulls, scratch, built, sortEq⟩ :=
    sort_of_merges sorter mergeable.some_rows mergeable.matching
      fun index earlier => merges_mergedColumn mergeable sorter.order earlier
  rw [sortEq, TimeOrder.distinctTimes_eq_ascending]
  generalize distinctEq : TimeOrder.ascending batch.times = distinct
  have schemaEq := built.schema_appendTimes distinct
  have lengthEq := built.length_columns distinct
  apply List.ext_getElem?
  intro index
  by_cases inside : index < batch.columns.length
  · have resultFields : (scratch.appendTimes distinct).schema.length =
        (scratch.appendTimes distinct).columns.length := by
      rw [schemaEq, lengthEq, fields]
    have resultInside : index < (scratch.appendTimes distinct).columns.length := by
      rw [lengthEq]
      exact inside
    have fieldEq : (scratch.appendTimes distinct).fieldAt index = batch.fieldAt index :=
      Batch.fieldAt_congr schemaEq index
    rw [List.getElem?_map, Batch.getElem?_zip fields inside,
      Batch.getElem?_zip resultFields resultInside, fieldEq, Option.map_some, mergedPair,
      distinctEq]
    by_cases last : index + 1 = batch.columns.length
    · rw [if_pos ((timeLast.name_iff index inside).mpr last), built.columnAt_last distinct last]
    · have earlier : index + 1 < batch.columns.length := by omega
      rw [if_neg (mt (timeLast.name_iff index inside).mp last),
        built.columnAt_earlier distinct earlier, built.columns index earlier]
  · rw [List.getElem?_eq_none, List.getElem?_eq_none]
    · rw [List.length_map, List.length_zip]
      omega
    · rw [List.length_zip, lengthEq]
      omega

/-- A sort leaves the fields as they are, and columns that can be sorted together. -/
theorem sort_matching (sorter : Sorter) (mergeable : batch.Mergeable) :
    (sorter.sort batch).error? = none ∧ (sorter.sort batch).batch.schema = batch.schema ∧
      (sorter.sort batch).batch.mismatch? = none := by
  obtain ⟨nulls, scratch, built, sortEq⟩ := sort_eq sorter mergeable
  rw [sortEq]
  exact ⟨rfl, built.schema_appendTimes _, built.mismatch?_eq_none mergeable sorter.order⟩

/-! ## Both orders -/

/-- Where the fields are moved, sorted columns are moved like their sources. -/
theorem sortedByName_sort (sorter other : Sorter) (mergeable : batch.Mergeable)
    (timeLast : batch.TimeLast) (movedLast : batch.sortedByName.TimeLast) :
    (other.sort batch.sortedByName).error? = none ∧
      (sorter.sort batch).batch.sortedByName = (other.sort batch.sortedByName).batch := by
  obtain ⟨movedMergeable, timesEq⟩ := mergeable.rearranged timeLast movedLast
    (Batch.zip_sortedByName_perm batch)
  obtain ⟨movedOk, -, matching⟩ := sort_matching other movedMergeable
  refine ⟨movedOk, Batch.eq_of_zip_eq ?_ ?_ ?_⟩
  · exact (Batch.length_columns_sortedByName _).symm
  · exact (Batch.mismatch?_eq_none_iff _ |>.mp matching).1.symm
  · let before (first second : Field × Column) : Bool := !second.1.precedes first.1
    have sameOrder : ∀ first ∈ batch.schema.zip batch.columns,
        ∀ second ∈ batch.schema.zip batch.columns, before first second =
          before (mergedPair batch.times first) (mergedPair batch.times second) :=
      fun _ _ _ _ => rfl
    calc (sorter.sort batch).batch.sortedByName.schema.zip
            (sorter.sort batch).batch.sortedByName.columns
        = ((batch.schema.zip batch.columns).map (mergedPair batch.times)).mergeSort before := by
          rw [Batch.zip_sortedByName, zip_sort sorter mergeable timeLast]
      _ = ((batch.schema.zip batch.columns).mergeSort before).map (mergedPair batch.times) :=
          (List.map_mergeSort sameOrder).symm
      _ = (batch.sortedByName.schema.zip batch.sortedByName.columns).map
            (mergedPair batch.sortedByName.times) := by
          rw [Batch.zip_sortedByName, timesEq]
      _ = (other.sort batch.sortedByName).batch.schema.zip
            (other.sort batch.sortedByName).batch.columns :=
          (zip_sort other movedMergeable movedLast).symm

/-- A valid batch can be sorted and then validated or validated and then sorted, and becomes the
same. -/
theorem validate_sort (sorter other : Sorter) (someRows : 0 < batch.rowCount.toInt)
    (kept : ∀ index, index + 1 < batch.columns.length →
      (batch.fieldAt index).type.storage ≠ .absent)
    (wellFormed : ∀ index, index + 1 < batch.columns.length →
      (batch.columnAt index).WellFormed (batch.fieldAt index).type)
    (addressable : ∀ index, index + 1 < batch.columns.length →
      (batch.columnAt index).Addressable (batch.fieldAt index).type.storage)
    (valid : batch.validate.error? = none) :
    (sorter.sort batch).error? = none ∧
      (sorter.sort batch).batch.validate.error? = none ∧
      (other.sort batch.validate.batch).error? = none ∧
      (sorter.sort batch).batch.validate.batch = (other.sort batch.validate.batch).batch := by
  have schemaValid := (Batch.schemaError?_eq_none_iff batch).mp
    ((Batch.validate_ok_iff batch).mp valid).1
  have mergeable : batch.Mergeable := {
    some_rows := Column.ne_zero_of_toInt_pos someRows
    matching := Batch.mismatch?_of_valid valid
    time_storage := congrArg ValueType.storage schemaValid.last_type
    kept
    wellFormed
    addressable }
  obtain ⟨sortOk, schemaEq, matching⟩ := sort_matching sorter mergeable
  obtain ⟨sortedValid, misplacedIff⟩ := Batch.validate_of_schema_eq valid schemaEq matching
  refine ⟨sortOk, sortedValid, ?_⟩
  rcases Batch.validate_batch_eq valid with
    ⟨unchanged, in_order⟩ | ⟨rearranged, misplaced, distinct⟩
  · rcases Batch.validate_batch_eq sortedValid with
      ⟨sorted_unchanged, -⟩ | ⟨-, sorted_misplaced, -⟩
    · obtain ⟨sameBatch, sameError, -⟩ := sort_congr batch sorter other
      rw [unchanged, sorted_unchanged, ← sameError, sameBatch]
      exact ⟨sortOk, rfl⟩
    · exact absurd (misplacedIff.mpr in_order) sorted_misplaced
  · rcases Batch.validate_batch_eq sortedValid with
      ⟨-, sorted_in_order⟩ | ⟨sorted_rearranged, -⟩
    · exact absurd (misplacedIff.mp sorted_in_order) misplaced
    · obtain ⟨front, namesEq, -, noTime, noneBefore⟩ := schemaValid.names_sortedByName distinct
      rw [rearranged, sorted_rearranged]
      exact sortedByName_sort sorter other mergeable
        (Batch.timeLast_of_names schemaValid.column_per_field schemaValid.names_eq noneBefore)
        (Batch.timeLast_of_names (Batch.length_columns_sortedByName batch).symm namesEq noTime)

/-- Neither the four rows are in order nor the three fields. The bitmap of the texts starts at its
third bit. -/
def unorderedPairs : Batch where
  schema := [⟨[98], .string⟩, ⟨[97], .integer⟩, ⟨Field.timeName, .integer⟩]
  columns := [
    ⟨4, 2, 2, [120, 121, 122], [0b1100], [0, 1, 3, 3]⟩,
    ((Column.empty.appendInteger 6).appendNulls 2).appendInteger 7,
    Column.empty.appendEach Column.appendInteger [5, 3, 5, 3]]

theorem validate_sort_unorderedPairs :
    0 < unorderedPairs.rowCount.toInt ∧
      (∀ index < 3, (unorderedPairs.fieldAt index).type.storage ≠ .absent ∧
        (unorderedPairs.columnAt index).WellFormed (unorderedPairs.fieldAt index).type ∧
        (unorderedPairs.columnAt index).values.length < UInt32.size) ∧
      unorderedPairs.validate.error? = none ∧ unorderedPairs.firstMisplaced? = some 1 ∧
      (empty.sort unorderedPairs).error? = none ∧
      (empty.sort unorderedPairs).batch.validate.error? = none ∧
      (empty.sort unorderedPairs.validate.batch).error? = none ∧
      (empty.sort unorderedPairs).batch.validate.batch =
        (empty.sort unorderedPairs.validate.batch).batch := by
  have someRows : 0 < unorderedPairs.rowCount.toInt := by decide +kernel
  have columns : ∀ index < 3, (unorderedPairs.fieldAt index).type.storage ≠ .absent ∧
      (unorderedPairs.columnAt index).WellFormed (unorderedPairs.fieldAt index).type ∧
      (unorderedPairs.columnAt index).values.length < UInt32.size := by
    decide +kernel
  have valid : unorderedPairs.validate.error? = none := by cbv
  have misplaced : unorderedPairs.firstMisplaced? = some 1 := by decide +kernel
  exact ⟨someRows, columns, valid, misplaced,
    validate_sort empty empty someRows
      (fun index earlier => (columns index (Nat.lt_of_succ_lt earlier)).1)
      (fun index earlier => (columns index (Nat.lt_of_succ_lt earlier)).2.1)
      (fun index earlier _ => (columns index (Nat.lt_of_succ_lt earlier)).2.2) valid⟩

end Sorter

end Columnar
