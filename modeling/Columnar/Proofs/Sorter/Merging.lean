import Columnar.Proofs.Sorter.Building
import Columnar.Proofs.Sorter.Columns

/-!
# Batches whose columns merge

A sort reads the last column only for its timestamps, and merges every other column on its own.  So
it succeeds on any batch that fits together, has a timestamp for each row and has well-formed
columns in front of the last one (`Batch.Mergeable`, `sort_eq`).

The result fits together again (`Built.mismatch?_eq_none`): each merged column has one row for each
distinct timestamp, and so has the last column, which is built anew from the timestamps alone.
-/

namespace Columnar

theorem Cell.nulls_integers (values : List Int64) : nulls (values.map ofInteger) = 0 := by
  rw [nulls, List.countP_eq_zero]
  intro cell member
  obtain ⟨value, -, rfl⟩ := List.mem_map.mp member
  exact Bool.false_ne_true

/-! ## The column of timestamps -/

namespace Column

variable {times : List Int64} (rowsLt : times.length < 2 ^ 31)
include rowsLt

/-- The column that is built from timestamps holds them. -/
theorem represents_times :
    (empty.appendEach appendInteger times).Represents (.packed 8)
      (times.map Cell.ofInteger) := by
  have rowsFit : ([] : List Cell).length + times.length < 2 ^ 31 := by
    rw [List.length_nil, Nat.zero_add]
    exact rowsLt
  have represents := represents_appendIntegers (represents_empty (.packed 8)) rowsFit
  rw [List.nil_append] at represents
  exact represents

theorem rowCount_times :
    (empty.appendEach appendInteger times).rowCount.toInt = times.length := by
  rw [(represents_times rowsLt).rowCount_eq, List.length_map]

theorem nullCount_times : (empty.appendEach appendInteger times).nullCount = 0 := by
  apply toInt_eq_zero_iff.mp
  rw [(represents_times rowsLt).nullCount_eq, Cell.nulls_integers]
  rfl

theorem consistent_times : (empty.appendEach appendInteger times).Consistent (.packed 8) :=
  (represents_times rowsLt).consistent nofun

end Column

namespace Batch

variable {batch : Batch}

/-- A batch with rows that fit together, with a timestamp for each of them and with columns that
can be merged. Nothing more is asked of the last column. -/
structure Mergeable (batch : Batch) : Prop where
  some_rows : batch.rowCount ≠ 0
  matching : batch.mismatch? = none
  time_storage : (batch.fieldAt (batch.schema.length - 1)).type.storage = .packed 8
  kept : ∀ index, index + 1 < batch.columns.length →
    (batch.fieldAt index).type.storage ≠ .absent
  wellFormed : ∀ index, index + 1 < batch.columns.length →
    (batch.columnAt index).WellFormed (batch.fieldAt index).type
  addressable : ∀ index, index + 1 < batch.columns.length →
    (batch.columnAt index).Addressable (batch.fieldAt index).type.storage

namespace Mergeable

theorem length_times (mergeable : batch.Mergeable) :
    batch.rowCount.toInt = batch.times.length :=
  length_times_of_matching mergeable.some_rows mergeable.matching mergeable.time_storage

theorem some_times (mergeable : batch.Mergeable) : 0 < batch.times.length := by
  have rowsEq := mergeable.length_times
  have someRows := mt Column.toInt_eq_zero_iff.mp mergeable.some_rows
  omega

theorem length_times_lt (mergeable : batch.Mergeable) : batch.times.length < 2 ^ 31 := by
  have rowsEq := mergeable.length_times
  have rowsLt := batch.rowCount.toInt_lt
  omega

/-- Every column but the last can be merged by the timestamps. -/
theorem column (mergeable : batch.Mergeable) {index : Nat}
    (earlier : index + 1 < batch.columns.length) (nulls : NullIndex) :
    Sorter.Mergeable batch.times (batch.fieldAt index).type (batch.columnAt index)
      (nulls.rebuild (batch.columnAt index) (batch.times.length + 1)) := by
  have consistent := (Column.wellFormed_iff _ _).mp (mergeable.wellFormed index earlier)
  have sameRows :=
    ((batch.mismatch?_eq_none_iff.mp mergeable.matching).2.2 index (Nat.lt_of_succ_lt earlier)).1
  have rows : (batch.columnAt index).rowCount.toInt = batch.times.length := by
    rw [sameRows, mergeable.length_times]
  have ranks := NullIndex.ranks_rebuild consistent.headerValid nulls
  rw [rows, Int.toNat_natCast] at ranks
  exact ⟨mergeable.kept index earlier, consistent, ranks, rows,
    mergeable.addressable index earlier⟩

end Mergeable

end Batch

namespace Sorter

open TimeOrder (timeAt sortedRows)

variable {batch scratch : Batch}

theorem MergedFrom.rowCount_eq {times : List Int64} {storage : Storage}
    {source merged : Column} (mergedFrom : MergedFrom times storage source merged) :
    merged.rowCount.toInt =
      (TimeOrder.withoutRepeats ((sortedRows times).map (timeAt times))).length := by
  have cellsEq := congrArg List.length mergedFrom.cells_eq
  have covered := mergedFrom.consistent.headerValid
  have nullCountNonneg := covered.nullCount_nonneg
  have nullCountLe := covered.nullCount_le
  rw [Column.cells, List.length_map, List.length_map, List.length_range] at cellsEq
  omega

/-- A column that is merged from the column at a position of a batch. -/
def MergedOf (batch : Batch) (index : Nat) (merged : Column) : Prop :=
  MergedFrom batch.times (batch.fieldAt index).type.storage (batch.columnAt index) merged

theorem merges_of_mergeable (mergeable : batch.Mergeable) (order : TimeOrder) {index : Nat}
    (earlier : index + 1 < batch.columns.length) :
    Merges batch (order.rebuild batch.times) (MergedOf batch) index := by
  intro nulls
  rw [TimeOrder.length_times_rebuild]
  exact mergeColumn_ok order (mergeable.column earlier nulls) mergeable.some_times

/-- What an earlier sort left has no part in the result. -/
theorem sort_eq (sorter : Sorter) (mergeable : batch.Mergeable) :
    ∃ nulls scratch, Built batch (MergedOf batch) scratch ∧
      sorter.sort batch =
        ⟨⟨sorter.order.rebuild batch.times, nulls, batch⟩,
          scratch.appendTimes (sorter.order.rebuild batch.times).distinctTimes, none, []⟩ :=
  sort_of_merges sorter mergeable.some_rows mergeable.matching
    fun _ earlier => merges_of_mergeable mergeable sorter.order earlier

namespace Built

theorem times_eq {built : Nat → Column → Prop} (builtBatch : Built batch built scratch)
    (someColumns : 0 < batch.columns.length) {times : List Int64}
    (rowsLt : times.length < 2 ^ 31) : (scratch.appendTimes times).times = times := by
  have last : batch.columns.length - 1 + 1 = batch.columns.length :=
    Nat.sub_add_cancel someColumns
  rw [Batch.times_eq_integers, builtBatch.length_columns, builtBatch.columnAt_last times last]
  exact Column.integers_of_values_eq (Column.represents_times rowsLt).values_eq

variable (built : Built batch (MergedOf batch) scratch) (mergeable : batch.Mergeable)
  (order : TimeOrder)
include built mergeable

/-- Every column of the result has one row for each distinct timestamp. -/
theorem rowCount_eq {index : Nat} (inside : index < batch.columns.length) :
    ((scratch.appendTimes (order.rebuild batch.times).distinctTimes).columnAt index).rowCount.toInt =
      (order.rebuild batch.times).distinctTimes.length := by
  have rowsLt := Nat.lt_of_le_of_lt (TimeOrder.length_distinctTimes_le batch.times order)
    mergeable.length_times_lt
  by_cases last : index + 1 = batch.columns.length
  · rw [built.columnAt_last _ last, Column.rowCount_times rowsLt]
  · have earlier : index + 1 < batch.columns.length := by omega
    rw [built.columnAt_earlier _ earlier, (built.columns index earlier).rowCount_eq,
      TimeOrder.distinctTimes_rebuild]

/-- The columns of the result fit together. -/
theorem mismatch?_eq_none :
    (scratch.appendTimes (order.rebuild batch.times).distinctTimes).mismatch? = none := by
  have rowsLt := Nat.lt_of_le_of_lt (TimeOrder.length_distinctTimes_le batch.times order)
    mergeable.length_times_lt
  have rowCountEq {index : Nat} (inside : index < batch.columns.length) :=
    built.rowCount_eq mergeable order inside
  generalize (order.rebuild batch.times).distinctTimes = times at rowsLt rowCountEq ⊢
  have fields := (batch.mismatch?_eq_none_iff.mp mergeable.matching).1
  have someColumns := Batch.columns_pos_of_rows mergeable.some_rows
  have last : batch.columns.length - 1 + 1 = batch.columns.length :=
    Nat.sub_add_cancel someColumns
  have fieldEq := Batch.fieldAt_congr (built.schema_appendTimes times)
  apply (Batch.mismatch?_eq_none_iff _).mpr
  rw [built.length_columns times, built.schema_appendTimes]
  refine ⟨fields, ?_, ?_⟩
  · rw [built.columnAt_last times last]
    exact Column.nullCount_times rowsLt
  · intro index inside
    constructor
    · apply Int32.toInt_inj.mp
      rw [Batch.rowCount_eq_columnAt, built.length_columns times, rowCountEq inside,
        rowCountEq (by omega)]
    · rw [fieldEq, Column.layoutError?_eq_none_iff]
      by_cases isLast : index + 1 = batch.columns.length
      · have timeStorage := mergeable.time_storage
        rw [← fields, ← isLast, Nat.add_sub_cancel] at timeStorage
        have consistent := Column.consistent_times rowsLt
        rw [built.columnAt_last times isLast, timeStorage]
        exact ⟨consistent.headerValid, consistent.buffersFit⟩
      · have earlier : index + 1 < batch.columns.length := by omega
        have consistent := (built.columns index earlier).consistent
        rw [built.columnAt_earlier times earlier]
        exact ⟨consistent.headerValid, consistent.buffersFit⟩

end Built

end Sorter

end Columnar
