import Columnar.Proofs.Sorter.Merging

/-!
# Sorted batches

A batch that can be sorted becomes its sorted form: the distinct timestamps in ascending order,
and in every other column, for each of them, the last present cell among the rows that had it.

Each column of the result is built from its own source and put in its own place.  So the
statement about all columns follows from `mergeColumn_ok` by `sort_of_merges`, and the time column,
which only receives the distinct timestamps, is a matter of its own.
-/

namespace Columnar

/-- A well-formed column of a type with storage, of such a size that no count of its rows, bits or
bytes leaves its word. -/
structure Column.Sortable (type : ValueType) (column : Column) : Prop where
  wellFormed : column.WellFormed type
  kept : type.storage ≠ .absent
  rows_lt : column.rowCount.toInt < 2 ^ 28
  bits_lt : column.bitOffset.toInt + column.rowCount.toInt < 2 ^ 30
  values_lt : column.values.length < 2 ^ 32

instance (type : ValueType) (column : Column) : Decidable (column.Sortable type) :=
  decidable_of_iff
    (column.WellFormed type ∧ type.storage ≠ .absent ∧ column.rowCount.toInt < 2 ^ 28 ∧
      column.bitOffset.toInt + column.rowCount.toInt < 2 ^ 30 ∧ column.values.length < 2 ^ 32)
    ⟨fun ⟨wellFormed, kept, rows, bits, values⟩ => ⟨wellFormed, kept, rows, bits, values⟩,
      fun ⟨wellFormed, kept, rows, bits, values⟩ => ⟨wellFormed, kept, rows, bits, values⟩⟩

namespace Batch

/-- A batch with rows whose columns can be sorted together. -/
structure Sortable (batch : Batch) : Prop where
  nonempty : 0 < batch.rowCount.toInt
  column_per_field : batch.columns.length = batch.schema.length
  time_type : (batch.fieldAt (batch.schema.length - 1)).type = .integer
  time_nulls : (batch.columnAt (batch.columns.length - 1)).nullCount = 0
  rowCount_eq : ∀ index < batch.columns.length, (batch.columnAt index).rowCount = batch.rowCount
  columns : ∀ index < batch.columns.length,
    (batch.columnAt index).Sortable (batch.fieldAt index).type

instance (batch : Batch) : Decidable batch.Sortable :=
  decidable_of_iff
    (0 < batch.rowCount.toInt ∧ batch.columns.length = batch.schema.length ∧
      (batch.fieldAt (batch.schema.length - 1)).type = .integer ∧
      (batch.columnAt (batch.columns.length - 1)).nullCount = 0 ∧
      (∀ index < batch.columns.length, (batch.columnAt index).rowCount = batch.rowCount) ∧
      ∀ index < batch.columns.length,
        (batch.columnAt index).Sortable (batch.fieldAt index).type)
    ⟨fun ⟨nonempty, fields, type, nulls, rows, columns⟩ =>
        ⟨nonempty, fields, type, nulls, rows, columns⟩,
      fun ⟨nonempty, fields, type, nulls, rows, columns⟩ =>
        ⟨nonempty, fields, type, nulls, rows, columns⟩⟩

/-- A batch that has one row for each timestamp of another batch, in ascending order. What
becomes of the rows with a timestamp, `Cell.mergedAt` says for each column on its own. -/
structure SortedFrom (batch sorted : Batch) : Prop where
  schema_eq : sorted.schema = batch.schema
  ascending : sorted.times.Pairwise (· < ·)
  mem_times : ∀ time, time ∈ sorted.times ↔ time ∈ batch.times
  columns_length : sorted.columns.length = batch.columns.length
  rowCount_eq : ∀ index < batch.columns.length,
    (sorted.columnAt index).rowCount.toInt = sorted.times.length
  columns : ∀ index < batch.columns.length,
    (sorted.columnAt index).Sortable (batch.fieldAt index).type
  cells_eq : ∀ index, index + 1 < batch.columns.length →
    (sorted.columnAt index).cells (batch.fieldAt index).type.storage =
      sorted.times.map (Cell.mergedAt batch.times
        ((batch.columnAt index).cells (batch.fieldAt index).type.storage))

/-! ## Batches that can be sorted -/

namespace Sortable

variable {batch : Batch}

theorem some_rows (sortable : batch.Sortable) : batch.rowCount ≠ 0 :=
  Column.ne_zero_of_toInt_pos sortable.nonempty

theorem columns_ne_nil (sortable : batch.Sortable) : 0 < batch.columns.length :=
  columns_pos_of_rows sortable.some_rows

theorem mismatch?_eq_none (sortable : batch.Sortable) : batch.mismatch? = none := by
  apply batch.mismatch?_eq_none_iff.mpr
  refine ⟨sortable.column_per_field, sortable.time_nulls, ?_⟩
  intro index inside
  exact ⟨sortable.rowCount_eq index inside,
    (sortable.columns index inside).wellFormed.layoutError?_eq_none⟩

/-- The columns can be merged by the timestamps of the last one. -/
theorem mergeable (sortable : batch.Sortable) : batch.Mergeable where
  some_rows := sortable.some_rows
  matching := sortable.mismatch?_eq_none
  time_storage := congrArg ValueType.storage sortable.time_type
  kept := fun index earlier => (sortable.columns index (Nat.lt_of_succ_lt earlier)).kept
  wellFormed := fun index earlier => (sortable.columns index (Nat.lt_of_succ_lt earlier)).wellFormed
  addressable := fun index earlier _ =>
    (sortable.columns index (Nat.lt_of_succ_lt earlier)).values_lt

theorem length_times (sortable : batch.Sortable) : batch.rowCount.toInt = batch.times.length :=
  sortable.mergeable.length_times

theorem length_times_lt (sortable : batch.Sortable) : batch.times.length < 2 ^ 28 := by
  have rowsEq := sortable.length_times
  have someColumns := sortable.columns_ne_nil
  have bound := (sortable.columns 0 someColumns).rows_lt
  rw [sortable.rowCount_eq 0 someColumns] at bound
  omega

end Sortable

end Batch

namespace Sorter

/-! ## Sorting -/

/-- A column of merged cells is sortable again. -/
private theorem MergedFrom.sortable {times : List Int64} {type : ValueType}
    {source merged : Column} (mergedFrom : MergedFrom times type.storage source merged)
    (sortable : source.Sortable type) (rowsLe : merged.rowCount.toInt ≤ source.rowCount.toInt) :
    merged.Sortable type where
  wellFormed := (Column.wellFormed_iff type merged).mpr mergedFrom.consistent
  kept := sortable.kept
  rows_lt := Int.lt_of_le_of_lt rowsLe sortable.rows_lt
  bits_lt := Int.lt_of_le_of_lt (Int.add_le_add mergedFrom.bitOffset_le rowsLe) sortable.bits_lt
  values_lt := Nat.lt_of_le_of_lt mergedFrom.values_le sortable.values_lt

private theorem sortable_times {times : List Int64} (rowsLt : times.length < 2 ^ 28) :
    (Column.empty.appendEach Column.appendInteger times).Sortable .integer := by
  have represents := Column.represents_times (Nat.lt_trans rowsLt (by decide))
  have rowCountEq := represents.rowCount_eq
  have valuesLength : (Column.empty.appendEach Column.appendInteger times).values.length =
      8 * times.length := by
    rw [represents.values_eq, Column.length_packed_integers]
  have bitOffsetEq : (Column.empty.appendEach Column.appendInteger times).bitOffset = 0 :=
    Column.bitOffset_appendIntegers times .empty
  rw [List.length_map] at rowCountEq
  exact {
    wellFormed := (Column.wellFormed_iff _ _).mpr (represents.consistent nofun)
    kept := nofun
    rows_lt := by omega
    bits_lt := by
      rw [bitOffsetEq, Int32.toInt_zero]
      omega
    values_lt := by omega }

variable {batch : Batch}

namespace Built

variable {scratch : Batch}

/-- With the distinct timestamps appended, the built columns are the sorted batch. -/
theorem sortedFrom (sortable : batch.Sortable) (built : Built batch (MergedOf batch) scratch)
    (order : TimeOrder) :
    batch.SortedFrom (scratch.appendTimes (order.rebuild batch.times).distinctTimes) := by
  have distinctEq := TimeOrder.distinctTimes_rebuild batch.times order
  have ascending := TimeOrder.pairwise_distinctTimes batch.times order
  have timesLe := TimeOrder.length_distinctTimes_le batch.times order
  have memIff := TimeOrder.mem_distinctTimes batch.times order
  have rowCountEq {index : Nat} (inside : index < batch.columns.length) :=
    built.rowCount_eq sortable.mergeable order inside
  generalize (order.rebuild batch.times).distinctTimes = times
    at distinctEq ascending memIff timesLe rowCountEq ⊢
  have rowsEq := sortable.length_times
  have rowsLt := Nat.lt_of_le_of_lt timesLe sortable.length_times_lt
  have sortedTimes := built.times_eq sortable.columns_ne_nil (Nat.lt_trans rowsLt (by decide))
  exact {
    schema_eq := built.schema_appendTimes _
    ascending := by
      rw [sortedTimes]
      exact ascending
    mem_times := by
      intro time
      rw [sortedTimes]
      exact memIff time
    columns_length := built.length_columns times
    rowCount_eq := by
      intro index inside
      rw [rowCountEq inside, sortedTimes]
    columns := by
      intro index inside
      by_cases last : index + 1 = batch.columns.length
      · have timeType := sortable.time_type
        rw [← sortable.column_per_field, ← last, Nat.add_sub_cancel] at timeType
        rw [built.columnAt_last times last, timeType]
        exact sortable_times rowsLt
      · have earlier : index + 1 < batch.columns.length := by omega
        have rowsLe : (scratch.columnAt index).rowCount.toInt ≤
            (batch.columnAt index).rowCount.toInt := by
          have rows := rowCountEq inside
          rw [built.columnAt_earlier times earlier] at rows
          rw [rows, sortable.rowCount_eq index inside]
          omega
        rw [built.columnAt_earlier times earlier]
        exact (built.columns index earlier).sortable (sortable.columns index inside) rowsLe
    cells_eq := by
      intro index earlier
      rw [built.columnAt_earlier times earlier, (built.columns index earlier).cells_eq,
        sortedTimes, distinctEq] }

end Built

/-- Sorting a batch that can be sorted succeeds and leaves its sorted form, whatever the sorter
did before. -/
theorem sort_sortedFrom (sorter : Sorter) (sortable : batch.Sortable) :
    (sorter.sort batch).error? = none ∧ (sorter.sort batch).log = [] ∧
      batch.SortedFrom (sorter.sort batch).batch := by
  obtain ⟨nulls, scratch, built, sortEq⟩ := sort_eq sorter sortable.mergeable
  rw [sortEq]
  exact ⟨rfl, rfl, built.sortedFrom sortable sorter.order⟩

/-- Four rows with the timestamps 5, 3, 5 and 3. The texts of the last two are null, and the bitmap
of the texts starts at its third bit. -/
def unsortedRows : Batch where
  schema := [⟨[115], .string⟩, ⟨Field.timeName, .integer⟩]
  columns := [
    ⟨4, 2, 2, [120, 121, 122], [0b1100], [0, 1, 3, 3]⟩,
    Column.empty.appendEach Column.appendInteger [5, 3, 5, 3]]

theorem sort_unsortedRows :
    unsortedRows.Sortable ∧ (Sorter.empty.sort unsortedRows).error? = none ∧
      (Sorter.empty.sort unsortedRows).log = [] ∧
      unsortedRows.SortedFrom (Sorter.empty.sort unsortedRows).batch := by
  have sortable : unsortedRows.Sortable := by decide +kernel
  exact ⟨sortable, sort_sortedFrom Sorter.empty sortable⟩

end Sorter

end Columnar
