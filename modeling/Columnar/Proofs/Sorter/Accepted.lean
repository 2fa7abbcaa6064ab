import Columnar.Proofs.Sorter.Merging
import Columnar.Proofs.Sorter.Refusal

/-!
# Results that are sorted again

What a sort accepts as its last column is read as timestamps, eight bytes for each, whatever the
type of its field is.  The last column of the result is always a column of integers.  So the result
is accepted again exactly if the field's type has values of eight bytes: `sort?_accepted_iff` says
so for all batches with well-formed columns of bounded size.

A last column of truth values is accepted too, and eight of its rows make one timestamp.  The
result then has too many bytes for its type (`sort?_eightFlags`).  With fewer than eight rows there
is no timestamp, and the sort stops before it has a result.
-/

namespace Columnar

/-- The bytes of a column of any type make fewer than 2^31 timestamps. -/
theorem Column.length_integers_lt {type : ValueType} {column : Column}
    (layout : column.layoutError? type = none) (addressable : column.Addressable type.storage) :
    column.integers.length < 2 ^ 31 := by
  obtain ⟨valid, fit⟩ := (layoutError?_eq_none_iff type column).mp layout
  have rowsLt := column.rowCount.toInt_lt
  have nullCountNonneg := valid.nullCount_nonneg
  rw [integers, List.length_map, Bytes.length_words]
  by_cases text : type.storage = .text
  · have valuesLt : column.values.length < 2 ^ 32 := addressable text
    omega
  · have widthLe := type.width_le
    have length := (buffersFit_of_ne_text text column).mp fit
    have bound : (type.storage.width : Int) *
        (column.rowCount.toInt - column.nullCount.toInt) ≤
          8 * (column.rowCount.toInt - column.nullCount.toInt) := by
      apply Int.mul_le_mul_of_nonneg_right
      · rw [ValueType.width] at widthLe
        omega
      · have nullCountLe := valid.nullCount_le
        omega
    omega

/-- The column of timestamps passes the check of a type exactly if its values have eight bytes. -/
theorem Column.layoutError?_times_iff {times : List Int64} (rowsLt : times.length < 2 ^ 31)
    (someTimes : 0 < times.length) (type : ValueType) :
    (empty.appendEach appendInteger times).layoutError? type = none ↔
      type.storage = .packed 8 := by
  have consistent := consistent_times rowsLt
  have represents := represents_times rowsLt
  have rowCountEq := rowCount_times rowsLt
  have nullCountEq := nullCount_times rowsLt
  have valuesLength : (empty.appendEach appendInteger times).values.length =
      8 * times.length := by
    rw [represents.values_eq, length_packed_integers]
  rw [layoutError?_eq_none_iff]
  constructor
  · rintro ⟨-, fit⟩
    by_cases text : type.storage = .text
    · rw [text] at fit
      have counted := fit.1
      have noOffsets : (Storage.packed 8).offsets (times.map Cell.ofInteger) = [] := rfl
      rw [represents.offsets_eq, noOffsets, List.length_nil] at counted
      omega
    · have length := (buffersFit_of_ne_text text _).mp fit
      rw [valuesLength, rowCountEq, nullCountEq, Int32.toInt_zero, Int.sub_zero,
        Int.natCast_mul, Int.mul_eq_mul_right_iff (by omega)] at length
      cases storage : type.storage with
      | text => exact absurd storage text
      | packed width =>
        rw [storage, Storage.width] at length
        rw [Int.ofNat_inj.mp length.symm]
      | absent =>
        rw [storage, Storage.width] at length
        omega
  · intro eight
    rw [eight]
    exact ⟨consistent.headerValid, consistent.buffersFit⟩

namespace Batch

/-- The columns have as many rows as the last one, each passes the check of its field's type, and the
last has no nulls. -/
structure ColumnsFit (batch : Batch) : Prop where
  rowCount_eq : ∀ index < batch.columns.length,
    (batch.columnAt index).rowCount = batch.rowCount
  layoutError?_eq_none : ∀ index < batch.columns.length,
    (batch.columnAt index).layoutError? (batch.fieldAt index).type = none
  last_nulls : (batch.columnAt (batch.columns.length - 1)).nullCount = 0

theorem mismatch?_eq_none_iff_columnsFit (batch : Batch) :
    batch.mismatch? = none ↔ batch.columns.length = batch.schema.length ∧ batch.ColumnsFit := by
  rw [mismatch?_eq_none_iff]
  constructor
  · rintro ⟨fields, noNulls, columns⟩
    exact ⟨fields, fun index inside => (columns index inside).1,
      fun index inside => (columns index inside).2, noNulls⟩
  · rintro ⟨fields, rowCountEq, layout, noNulls⟩
    exact ⟨fields, noNulls, fun index inside => ⟨rowCountEq index inside, layout index inside⟩⟩

end Batch

namespace SorterBuffers

open Sorter (Outcome Built)

variable {batch : Batch} {buffers : SorterBuffers} {outcome : Outcome SorterBuffers}

/-! ## What a sort leaves -/

/-- Building columns leaves the time order, the fields and the columns behind them as they are. -/
theorem mergeColumns?_frame {index count : Nat} {built : SorterBuffers}
    (merged : mergeColumns? batch index count buffers = some (built, none)) :
    built.order = buffers.order ∧ built.scratch.schema = buffers.scratch.schema ∧
      built.scratch.columns.length = buffers.scratch.columns.length ∧
      ∀ place, index + count ≤ place →
        built.scratch.columnAt place = buffers.scratch.columnAt place := by
  induction count generalizing index buffers with
  | zero =>
    cases merged
    exact ⟨rfl, rfl, rfl, fun _ _ => rfl⟩
  | succ count ih =>
    simp only [mergeColumns?, Option.bind_eq_bind, Option.bind_eq_some_iff] at merged
    obtain ⟨nulls, -, result, -, merged⟩ := merged
    cases result with
    | error cause => cases merged
    | ok column =>
      obtain ⟨orderEq, schemaEq, lengthEq, kept⟩ := ih merged
      refine ⟨orderEq, schemaEq, lengthEq.trans List.length_set, ?_⟩
      intro place behind
      rw [kept place (by omega), Batch.columnAt, Batch.columnAt, List.getElem?_set_ne (by omega)]

/-- A sort that succeeds put the timestamps in order, of which there is one at least, and its
result has them without repetitions as its last column. -/
theorem built_of_sort? (someRows : batch.rowCount ≠ 0)
    (sorted : buffers.sort? batch = some outcome) (succeeded : outcome.error? = none) :
    batch.mismatch? = none ∧
      ∃ order scratch, buffers.order.rebuild? batch.times = some order ∧ order.times ≠ [] ∧
        Built batch (fun _ _ => True) scratch ∧
        outcome.batch = scratch.appendTimes (TimeOrder.withoutRepeats order.times) := by
  rw [sort?, if_neg someRows] at sorted
  cases mismatch : batch.mismatch? with
  | some cause =>
    rw [mismatch] at sorted
    cases sorted
    cases succeeded
  | none =>
    have fields := (batch.mismatch?_eq_none_iff.mp mismatch).1
    simp only [mismatch, Option.bind_eq_bind, Option.bind_eq_some_iff] at sorted
    obtain ⟨order, ordered, ⟨built, error?⟩, merged, finished⟩ := sorted
    cases error? with
    | some cause =>
      cases finished
      cases succeeded
    | none =>
      obtain ⟨orderEq, schemaEq, lengthEq, kept⟩ := mergeColumns?_frame merged
      rw [Batch.resetTo_eq_ofSchema] at schemaEq lengthEq kept
      rw [finish?] at finished
      split at finished
      next => cases finished
      next someTimes =>
        cases finished
        rw [orderEq] at someTimes ⊢
        refine ⟨rfl, order, built.scratch, ordered, someTimes, ?_, rfl⟩
        exact {
          schema_eq := schemaEq
          columns_length := by rw [lengthEq, fields]; exact List.length_replicate
          columns := fun _ _ => trivial
          last := by
            intro index last
            rw [kept index (by omega), Batch.columnAt_ofSchema] }

/-- Where the result of a sort fits together, the last field has a type with values of eight
bytes. -/
theorem time_storage_of_columnsFit (someRows : batch.rowCount ≠ 0)
    (bounded : ∀ index < batch.columns.length, (batch.columnAt index).Bounded)
    (sorted : buffers.sort? batch = some outcome) (succeeded : outcome.error? = none)
    (fit : outcome.batch.ColumnsFit) :
    (batch.fieldAt (batch.schema.length - 1)).type.storage = .packed 8 := by
  obtain ⟨matching, order, scratch, ordered, someTimes, built, batchEq⟩ :=
    built_of_sort? someRows sorted succeeded
  obtain ⟨fields, -, columns⟩ := batch.mismatch?_eq_none_iff.mp matching
  have someColumns := Batch.columns_pos_of_rows someRows
  have lastInside : batch.columns.length - 1 < batch.columns.length := by omega
  have last : batch.columns.length - 1 + 1 = batch.columns.length :=
    Nat.sub_add_cancel someColumns
  have timesLt : batch.times.length < 2 ^ 31 := by
    rw [Batch.times_eq_integers]
    exact Column.length_integers_lt (columns _ lastInside).2
      fun _ => (bounded _ lastInside).values_lt
  obtain ⟨rebuilt, rebuiltEq, holds⟩ :=
    OrderBuffers.exists_rebuild? timesLt buffers.order .empty
  obtain rfl : rebuilt = order := Option.some.inj (rebuiltEq.symm.trans ordered)
  have distinctLt := Nat.lt_of_le_of_lt
    (TimeOrder.length_distinctTimes_le batch.times .empty) timesLt
  have distinctPos : 0 < (TimeOrder.empty.rebuild batch.times).distinctTimes.length := by
    have timesPos : 0 < batch.times.length := by
      rw [← TimeOrder.length_times_rebuild batch.times .empty, ← holds.times_eq]
      exact List.length_pos_of_ne_nil someTimes
    exact List.length_pos_of_mem
      ((TimeOrder.mem_distinctTimes batch.times .empty _).mpr (List.getElem_mem timesPos))
  rw [batchEq] at fit
  have layout := fit.layoutError?_eq_none (batch.columns.length - 1)
    (by rw [built.length_columns]; exact lastInside)
  rw [built.columnAt_last _ last, Batch.fieldAt_congr (built.schema_appendTimes _), fields,
    holds.times_eq] at layout
  exact (Column.layoutError?_times_iff distinctLt distinctPos _).mp layout

/-- The result of a sort of well-formed columns fits together if the last field has a type with
values of eight bytes. -/
theorem mismatch?_of_time_storage (countable : batch.Countable)
    (wellFormed : ∀ index < batch.columns.length,
      (batch.columnAt index).WellFormed (batch.fieldAt index).type)
    (sorted : buffers.sort? batch = some outcome) (succeeded : outcome.error? = none) :
    outcome.batch.mismatch? = none := by
  obtain ⟨kept, plainEq, -⟩ := sort?_eq countable buffers .empty
  obtain rfl := Option.some.inj (plainEq.symm.trans sorted)
  have mergeable : batch.Mergeable := {
    some_rows := countable.some_rows
    matching := countable.matching
    time_storage := countable.time_storage
    kept := fun _ earlier => Sorter.kept_of_sorted _ countable.some_rows countable.matching
      countable.times_pos succeeded earlier
    wellFormed := fun index earlier => wellFormed index (Nat.lt_of_succ_lt earlier)
    addressable := fun index earlier _ =>
      (countable.bounded index (Nat.lt_of_succ_lt earlier)).values_lt }
  obtain ⟨nulls, scratch, built, sortEq⟩ :=
    Sorter.sort_eq ⟨.empty, buffers.nulls, buffers.scratch⟩ mergeable
  rw [sortEq]
  exact built.mismatch?_eq_none mergeable .empty

/-- A sort of well-formed columns of bounded size that succeeds leaves columns that fit together,
and that a sort accepts, exactly if the last field has a type with values of eight bytes. -/
theorem sort?_accepted_iff (someRows : 0 < batch.rowCount.toInt)
    (wellFormed : ∀ index < batch.columns.length,
      (batch.columnAt index).WellFormed (batch.fieldAt index).type)
    (bounded : ∀ index < batch.columns.length, (batch.columnAt index).Bounded)
    (sorted : buffers.sort? batch = some outcome) (succeeded : outcome.error? = none) :
    (outcome.batch.ColumnsFit ↔
      (batch.fieldAt (batch.schema.length - 1)).type ∈ [ValueType.integer, .float]) ∧
    (outcome.batch.mismatch? = none ↔
      (batch.fieldAt (batch.schema.length - 1)).type ∈ [ValueType.integer, .float]) := by
  have rowsNeZero := Column.ne_zero_of_toInt_pos someRows
  have matching := (built_of_sort? rowsNeZero sorted succeeded).1
  have fitOfMismatch (accepted : outcome.batch.mismatch? = none) : outcome.batch.ColumnsFit :=
    ((Batch.mismatch?_eq_none_iff_columnsFit _).mp accepted).2
  rw [← ValueType.storage_eq_packed_eight_iff]
  have storageOfFit :=
    time_storage_of_columnsFit rowsNeZero bounded sorted succeeded
  have mismatchOfStorage
      (timeStorage : (batch.fieldAt (batch.schema.length - 1)).type.storage = .packed 8) :
      outcome.batch.mismatch? = none := by
    have countable : batch.Countable := {
      some_rows := rowsNeZero
      matching
      time_storage := timeStorage
      nullCount_eq := fun index inside => (wellFormed index inside).nullCount_eq
      bounded }
    exact mismatch?_of_time_storage countable wellFormed sorted succeeded
  exact ⟨⟨storageOfFit, fitOfMismatch ∘ mismatchOfStorage⟩,
    ⟨storageOfFit ∘ fitOfMismatch, mismatchOfStorage⟩⟩

/-- Three rows whose timestamps are kept as floating-point values. -/
def floatTimes : Batch where
  schema := [⟨[115], .string⟩, ⟨Field.timeName, .float⟩]
  columns := [
    ((Column.empty.appendText [120]).appendTextNull).appendText [121, 122],
    Column.empty.appendEach Column.appendFloat [⟨7⟩, ⟨3⟩, ⟨7⟩]]

theorem sort?_floatTimes :
    0 < floatTimes.rowCount.toInt ∧
      (∀ index < floatTimes.columns.length,
        (floatTimes.columnAt index).WellFormed (floatTimes.fieldAt index).type ∧
          (floatTimes.columnAt index).Bounded) ∧
      ∃ outcome, empty.sort? floatTimes = some outcome ∧ outcome.error? = none ∧
        outcome.batch.ColumnsFit ∧ outcome.batch.mismatch? = none := by
  have someRows : 0 < floatTimes.rowCount.toInt := by decide +kernel
  have wellFormed : ∀ index < floatTimes.columns.length,
      (floatTimes.columnAt index).WellFormed (floatTimes.fieldAt index).type := by
    decide +kernel
  have bounded : ∀ index < floatTimes.columns.length, (floatTimes.columnAt index).Bounded := by
    decide +kernel
  have countable : floatTimes.Countable := {
    some_rows := Column.ne_zero_of_toInt_pos someRows
    matching := by decide +kernel
    time_storage := rfl
    nullCount_eq := fun index inside => (wellFormed index inside).nullCount_eq
    bounded }
  have kept : ∀ index, index + 1 < floatTimes.columns.length →
      (floatTimes.fieldAt index).type.storage ≠ .absent := by
    intro index earlier
    obtain rfl : index = 0 := by
      have twoColumns : floatTimes.columns.length = 2 := rfl
      omega
    decide
  obtain ⟨buffers, sorted, -⟩ := sort?_eq countable empty .empty
  obtain ⟨nulls, scratch, -, sortEq⟩ := Sorter.sort_of_kept ⟨.empty, empty.nulls, empty.scratch⟩
    countable.some_rows countable.matching kept
  have succeeded : (Sorter.sort floatTimes ⟨.empty, empty.nulls, empty.scratch⟩).error? = none := by
    rw [sortEq]
  obtain ⟨fitIff, acceptedIff⟩ := sort?_accepted_iff someRows wellFormed bounded sorted succeeded
  have eightBytes : (floatTimes.fieldAt (floatTimes.schema.length - 1)).type ∈
      [ValueType.integer, .float] := by
    decide
  exact ⟨someRows, fun index inside => ⟨wellFormed index inside, bounded index inside⟩,
    _, sorted, succeeded, fitIff.mpr eightBytes, acceptedIff.mpr eightBytes⟩

/-- Eight rows whose last column has truth values. -/
def eightFlags : Batch where
  schema := [⟨[118], .integer⟩, ⟨Field.timeName, .boolean⟩]
  columns := [
    Column.empty.appendEach Column.appendInteger [1, 2, 3, 4, 5, 6, 7, 8],
    Column.empty.appendEach Column.appendBoolean
      [true, false, false, false, false, false, false, false]]

/-- The bytes of eight truth values are taken for one timestamp, which is too long for a truth
value. -/
theorem sort?_eightFlags :
    0 < eightFlags.rowCount.toInt ∧
      (∀ index < eightFlags.columns.length,
        (eightFlags.columnAt index).WellFormed (eightFlags.fieldAt index).type) ∧
      ∃ outcome, empty.sort? eightFlags = some outcome ∧ outcome.error? = none ∧
        (outcome.batch.columnAt 1).layoutError? .boolean = some (.values 1 8) ∧
        outcome.batch.mismatch? = some (.layout 1 (.values 1 8)) := by
  refine ⟨by decide +kernel, by decide +kernel,
    (empty.sort? eightFlags).get (by decide +kernel), (Option.some_get _).symm, ?_⟩
  decide +kernel

end SorterBuffers

end Columnar
