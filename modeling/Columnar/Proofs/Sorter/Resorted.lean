import Columnar.Proofs.Sorter.Refusal
import Columnar.Proofs.Sorter.Sorted

/-!
# Sorting twice

A sort leaves a batch in sorted form, and a batch in sorted form is kept as it is, down to the bits
of its bitmaps behind the last row.

The two sorts do not take the same path.  The first one may have copied a column as a whole, with
its bit offset and with trailing bits, or built it row by row from the first bit on.  The second one
finds the rows in order and without repeats, and copies every column as a whole.  What the two have
in common is that such a copy changes nothing more: in sorted form there is nothing left to trim.
-/

namespace Columnar

namespace Batch

/-- A batch as a sort leaves it. -/
structure SortedForm (batch : Batch) : Prop where
  sortable : batch.Sortable
  ascending : batch.times.Pairwise (· < ·)
  trimmed_eq : ∀ index, index + 1 < batch.columns.length →
    (batch.columnAt index).trimmed = batch.columnAt index
  last_eq : ∀ index, index + 1 = batch.columns.length →
    batch.columnAt index = Column.empty.appendEach Column.appendInteger batch.times

/-- A batch with a time column and with well-formed columns, of such a size that no count of their
rows, bits or bytes leaves its word. Whether the columns fit together is left open, and so is
whether their types have storage. -/
structure WellFormed (batch : Batch) : Prop where
  time_type : (batch.fieldAt (batch.schema.length - 1)).type = .integer
  columns : ∀ index < batch.columns.length,
    (batch.columnAt index).WellFormed (batch.fieldAt index).type
  rows_lt : ∀ index < batch.columns.length, (batch.columnAt index).rowCount.toInt < 2 ^ 28
  bits_lt : ∀ index < batch.columns.length,
    (batch.columnAt index).bitOffset.toInt + (batch.columnAt index).rowCount.toInt < 2 ^ 30
  values_lt : ∀ index < batch.columns.length, (batch.columnAt index).values.length < 2 ^ 32

variable {batch sorted : Batch}

/-- What is sorted can be sorted again. -/
theorem SortedFrom.sortable (sortedFrom : batch.SortedFrom sorted) (sortable : batch.Sortable) :
    sorted.Sortable := by
  have lengthEq := sortedFrom.columns_length
  have schemaEq := sortedFrom.schema_eq
  have someColumns := sortable.columns_ne_nil
  have fieldEq := fieldAt_congr schemaEq
  have lastInside : sorted.columns.length - 1 < batch.columns.length := by omega
  have rowCountEq : sorted.rowCount.toInt = sorted.times.length := by
    rw [rowCount_eq_columnAt]
    exact sortedFrom.rowCount_eq _ lastInside
  -- Every timestamp of the batch is still there, so there is one.
  have someTimes : 0 < sorted.times.length := by
    have batchTimes := sortable.length_times
    have nonempty := sortable.nonempty
    have firstInside : 0 < batch.times.length := by omega
    have member := (sortedFrom.mem_times _).mpr (List.getElem_mem firstInside)
    exact List.length_pos_of_mem member
  have timeType : (sorted.fieldAt (sorted.schema.length - 1)).type = .integer := by
    rw [fieldEq, schemaEq]
    exact sortable.time_type
  have lastType : (batch.fieldAt (sorted.columns.length - 1)).type = .integer := by
    rw [lengthEq, sortable.column_per_field]
    exact sortable.time_type
  have noNulls : (sorted.columnAt (sorted.columns.length - 1)).nullCount = 0 := by
    have last := sortedFrom.columns _ lastInside
    rw [lastType] at last
    have count := Column.length_integers
      ((Column.layoutError?_eq_none_iff _ _).mp last.wellFormed.layoutError?_eq_none).2
    rw [← times_eq_integers, ← rowCount_eq_columnAt] at count
    apply Column.toInt_eq_zero_iff.mp
    omega
  exact {
    nonempty := by omega
    column_per_field := by rw [lengthEq, schemaEq, sortable.column_per_field]
    time_type := timeType
    time_nulls := noNulls
    rowCount_eq := by
      intro index inside
      rw [lengthEq] at inside
      apply Int32.toInt_inj.mp
      rw [sortedFrom.rowCount_eq index inside, rowCountEq]
    columns := by
      intro index inside
      rw [lengthEq] at inside
      rw [fieldEq]
      exact sortedFrom.columns index inside }

/-- A well-formed batch can be sorted if its columns fit together and have storage. -/
theorem WellFormed.sortable (wellFormed : batch.WellFormed) (someRows : batch.rowCount ≠ 0)
    (matching : batch.mismatch? = none)
    (kept : ∀ index, index + 1 < batch.columns.length →
      (batch.fieldAt index).type.storage ≠ .absent) :
    batch.Sortable := by
  obtain ⟨fields, noNulls, columns⟩ := batch.mismatch?_eq_none_iff.mp matching
  have rows := length_times_of_matching someRows matching
    (congrArg ValueType.storage wellFormed.time_type)
  have different := mt Column.toInt_eq_zero_iff.mp someRows
  exact {
    nonempty := by omega
    column_per_field := fields
    time_type := wellFormed.time_type
    time_nulls := noNulls
    rowCount_eq := fun index inside => (columns index inside).1
    columns := by
      intro index inside
      exact {
        wellFormed := wellFormed.columns index inside
        kept := by
          by_cases earlier : index + 1 < batch.columns.length
          · exact kept index earlier
          · -- The last column is the one of the timestamps.
            have last : index = batch.schema.length - 1 := by omega
            rw [last, wellFormed.time_type]
            nofun
        rows_lt := wellFormed.rows_lt index inside
        bits_lt := wellFormed.bits_lt index inside
        values_lt := wellFormed.values_lt index inside } }

end Batch

namespace Sorter

variable {batch scratch : Batch}

/-! ## The first sort -/

/-- With the distinct timestamps appended, the built columns are in sorted form. -/
theorem Built.sortedForm (built : Built batch (MergedOf batch) scratch)
    (sortable : batch.Sortable) (order : TimeOrder) :
    (scratch.appendTimes (order.rebuild batch.times).distinctTimes).SortedForm := by
  have sortedFrom := built.sortedFrom sortable order
  have rowsLt := Nat.lt_of_le_of_lt (TimeOrder.length_distinctTimes_le batch.times order)
    sortable.length_times_lt
  have timesEq := built.times_eq sortable.columns_ne_nil (Nat.lt_trans rowsLt (by decide))
  have lengthEq := sortedFrom.columns_length
  exact {
    sortable := sortedFrom.sortable sortable
    ascending := sortedFrom.ascending
    trimmed_eq := by
      intro index earlier
      rw [lengthEq] at earlier
      rw [built.columnAt_earlier _ earlier]
      exact (built.columns index earlier).trimmed_eq
    last_eq := by
      intro index last
      rw [lengthEq] at last
      rw [built.columnAt_last _ last, timesEq] }

/-- A well-formed batch that is sorted without an error is left in sorted form, unless it has no
rows. -/
theorem sortedForm_sort (sorter : Sorter) (wellFormed : batch.WellFormed)
    (someRows : batch.rowCount ≠ 0) (sorted : (sorter.sort batch).error? = none) :
    (sorter.sort batch).batch.SortedForm := by
  have matching := matching_of_sorted sorter someRows sorted
  have kept := (sort_error?_eq_none_iff sorter someRows matching wellFormed.time_type).mp sorted
  have sortable := wellFormed.sortable someRows matching kept
  obtain ⟨nulls, scratch, built, sortEq⟩ := sort_eq sorter sortable.mergeable
  rw [sortEq]
  exact built.sortedForm sortable sorter.order

/-! ## The second sort -/

/-- In sorted form every column but the last is copied as a whole. -/
theorem merges_of_sortedForm (form : batch.SortedForm) (order : TimeOrder) {index : Nat}
    (earlier : index + 1 < batch.columns.length) :
    Merges batch (order.rebuild batch.times) (fun place merged => merged = batch.columnAt place)
      index := by
  intro nulls
  have nonempty := form.sortable.nonempty
  rw [form.sortable.length_times] at nonempty
  have mergeable := form.sortable.mergeable.column earlier nulls
  rw [TimeOrder.length_times_rebuild]
  refine ⟨_, mergeColumn_of_ascending order mergeable (by omega) form.ascending, ?_⟩
  exact form.trimmed_eq index earlier

/-- A batch in sorted form is kept as it is. -/
theorem sort_of_sortedForm (sorter : Sorter) (form : batch.SortedForm) :
    (sorter.sort batch).error? = none ∧ (sorter.sort batch).batch = batch := by
  obtain ⟨nulls, scratch, built, sortEq⟩ :=
    sort_of_merges sorter form.sortable.some_rows form.sortable.mismatch?_eq_none
      fun index earlier => merges_of_sortedForm form sorter.order earlier
  rw [sortEq, TimeOrder.distinctTimes_of_ascending sorter.order form.ascending]
  refine ⟨rfl, ?_⟩
  apply Batch.eq_of_columnAt_eq
  · exact built.schema_appendTimes _
  · exact built.length_columns batch.times
  · intro index inside
    rw [built.length_columns] at inside
    by_cases earlier : index + 1 < batch.columns.length
    · rw [built.columnAt_earlier batch.times earlier]
      exact built.columns index earlier
    · have last : index + 1 = batch.columns.length := by omega
      rw [built.columnAt_last batch.times last, form.last_eq index last]

/-! ## Both sorts -/

/-- A second sort, by the same sorter or another one, succeeds and changes nothing. -/
theorem sort_sort (sorter other : Sorter) (wellFormed : batch.WellFormed)
    (sorted : (sorter.sort batch).error? = none) :
    (other.sort (sorter.sort batch).batch).error? = none ∧
      (other.sort (sorter.sort batch).batch).batch = (sorter.sort batch).batch := by
  by_cases noRows : batch.rowCount = 0
  · rw [sort_of_no_rows sorter noRows, sort_of_no_rows other noRows]
    exact ⟨rfl, rfl⟩
  · exact sort_of_sortedForm other (sortedForm_sort sorter wellFormed noRows sorted)

/-- Two rows in order. The bitmap of the texts starts behind its first byte, has set bits behind
the last row and a byte to spare. -/
def trailingBits : Batch where
  schema := [⟨[116], .string⟩, ⟨Field.timeName, .integer⟩]
  columns := [
    ⟨2, 1, 11, [120], [255, 0b11101111, 7], [0, 1]⟩,
    Column.empty.appendEach Column.appendInteger [1, 2]]

theorem sort_trailingBits :
    trailingBits.WellFormed ∧ (Sorter.empty.sort trailingBits).error? = none ∧
      ((Sorter.empty.sort trailingBits).sorter.sort
          (Sorter.empty.sort trailingBits).batch).error? = none ∧
      ((Sorter.empty.sort trailingBits).sorter.sort
          (Sorter.empty.sort trailingBits).batch).batch =
        (Sorter.empty.sort trailingBits).batch := by
  have wellFormed : trailingBits.WellFormed := {
    time_type := rfl
    columns := by decide +kernel
    rows_lt := by decide +kernel
    bits_lt := by decide +kernel
    values_lt := by decide +kernel }
  have someRows : trailingBits.rowCount ≠ 0 := by decide +kernel
  have matching : trailingBits.mismatch? = none := by decide +kernel
  have sorted : (Sorter.empty.sort trailingBits).error? = none := by
    apply (sort_error?_eq_none_iff Sorter.empty someRows matching wellFormed.time_type).mpr
    intro index earlier
    have twoColumns : trailingBits.columns.length = 2 := rfl
    obtain rfl : index = 0 := by omega
    decide
  exact ⟨wellFormed, sorted, sort_sort Sorter.empty _ wellFormed sorted⟩

end Sorter

end Columnar
