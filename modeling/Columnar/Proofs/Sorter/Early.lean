import Columnar.Proofs.Batch.Rows
import Columnar.Proofs.Sorter.Merging
import Columnar.Proofs.Sorter.Refusal

/-!
# Batches that are sorted early

Rows can be appended to a sorted batch, which is then sorted again.  The result has the same rows as
if all rows had been appended first and sorted once (`sort_early`).

A sort is followed on the lists that a batch is packed from (`Packed.sort`): it keeps each timestamp
once and for each of them the last present cell.  Taking the last present cell can be done in two
steps, the first of them among the rows in front (`mergedAt_early`), because these rows keep their
place before the rows behind.  The bytes of the two results need not agree: a column that was
copied as a whole may have another bit offset than one that was built row by row.
-/

namespace Columnar

namespace Cell

variable {times : List Int64} {cells : List Cell}

/-! ## Merging in two steps -/

/-- The cells of a column whose rows are sorted. -/
def sortedCells (times : List Int64) (cells : List Cell) : List Cell :=
  (TimeOrder.ascending times).map (mergedAt times cells)

@[simp] theorem length_sortedCells (times : List Int64) (cells : List Cell) :
    (sortedCells times cells).length = (TimeOrder.ascending times).length := by
  rw [sortedCells, List.length_map]

/-- Merged rows stay as they are when they are merged again. -/
theorem mergedAt_sortedCells (times : List Int64) (cells : List Cell) (time : Int64) :
    mergedAt (TimeOrder.ascending times) (sortedCells times cells) time =
      mergedAt times cells time := by
  by_cases member : time ∈ TimeOrder.ascending times
  · have distinct := (TimeOrder.pairwise_ascending times).nodup
    have oneRow := withTime_map time (TimeOrder.ascending times) id (mergedAt times cells)
    have once : (TimeOrder.ascending times).filter (fun other => id other = time) = [time] := by
      simp only [id]
      rw [List.filter_eq, List.count_eq_one_of_mem distinct member]
      rfl
    rw [List.map_id, once, List.map_singleton] at oneRow
    rw [mergedAt, sortedCells, oneRow, lastPresent_singleton]
  · rw [mergedAt_of_not_mem member, mergedAt_of_not_mem (mt (TimeOrder.mem_ascending times).mpr member)]

/-- Rows in front may be merged before rows behind them are. -/
theorem mergedAt_early (sameLength : times.length = cells.length) (laterTimes : List Int64)
    (laterCells : List Cell) (time : Int64) :
    mergedAt (TimeOrder.ascending times ++ laterTimes) (sortedCells times cells ++ laterCells)
        time =
      mergedAt (times ++ laterTimes) (cells ++ laterCells) time := by
  have mergedLength : (TimeOrder.ascending times).length = (sortedCells times cells).length :=
    (length_sortedCells times cells).symm
  rw [mergedAt, mergedAt, withTime_append sameLength, withTime_append mergedLength,
    lastPresent_append, lastPresent_append]
  congr 1
  exact mergedAt_sortedCells times cells time

theorem sortedCells_early (sameLength : times.length = cells.length) (laterTimes : List Int64)
    (laterCells : List Cell) :
    sortedCells (TimeOrder.ascending times ++ laterTimes) (sortedCells times cells ++ laterCells) =
      sortedCells (times ++ laterTimes) (cells ++ laterCells) := by
  rw [sortedCells, TimeOrder.ascending_append]
  apply List.map_congr_left
  intro time _
  exact mergedAt_early sameLength laterTimes laterCells time

end Cell

namespace Batch.Packed

variable {schema : Schema} {times : List Int64} {cellsAt : Nat → List Cell} {batch : Batch}

/-! ## Sorting packed batches -/

theorem mergeable (packed : batch.Packed schema times cellsAt) (sortable : schema.Sortable)
    (someRows : 0 < times.length) (bytesLt : CellsAddressable schema cellsAt) :
    batch.Mergeable := by
  have someFields := sortable.some_fields
  have rowCountEq {index : Nat} (inside : index < schema.length) :
      (batch.columnAt index).rowCount.toInt = times.length := by
    rw [(packed.represents sortable inside).rowCount_eq]
    split
    next => rw [List.length_map]
    next => rw [packed.length_cells index (by omega)]
  have wellFormed {index : Nat} (inside : index < schema.length) :
      (batch.columnAt index).WellFormed (batch.fieldAt index).type := by
    rw [Column.wellFormed_iff, packed.storage_eq]
    exact (packed.represents sortable inside).consistent
      (packed.addressable sortable bytesLt inside)
  have lastInside : schema.length - 1 < schema.length := Nat.sub_lt someFields Nat.one_pos
  have lastRows : batch.rowCount.toInt = times.length := by
    rw [rowCount_eq_columnAt, packed.columns_length, rowCountEq lastInside]
  exact {
    some_rows := Column.ne_zero_of_toInt_pos (by omega)
    matching := by
      refine batch.mismatch?_eq_none_iff.mpr ⟨?_, ?_, ?_⟩
      · rw [packed.columns_length, packed.schema_eq]
      · apply Column.toInt_eq_zero_iff.mp
        rw [packed.columns_length,
          (packed.last _ (Nat.sub_add_cancel someFields)).nullCount_eq, Cell.nulls_integers]
        rfl
      · intro index inside
        rw [packed.columns_length] at inside
        refine ⟨?_, (wellFormed inside).layoutError?_eq_none⟩
        apply Int32.toInt_inj.mp
        rw [rowCountEq inside, lastRows]
    time_storage := by
      rw [fieldAt, packed.schema_eq, sortable.time_type]
      rfl
    kept := by
      intro index earlier
      rw [packed.columns_length] at earlier
      rw [packed.storage_eq]
      exact sortable.kept index earlier
    wellFormed := by
      intro index earlier
      rw [packed.columns_length] at earlier
      exact wellFormed (Nat.lt_of_succ_lt earlier)
    addressable := by
      intro index earlier
      rw [packed.columns_length] at earlier
      rw [packed.storage_eq]
      exact packed.addressable sortable bytesLt (Nat.lt_of_succ_lt earlier) }

/-- Without rows nothing changes. -/
private theorem sort_of_no_times (sorter : Sorter) (packed : batch.Packed schema [] cellsAt)
    (sortable : schema.Sortable) :
    (sorter.sort batch).error? = none ∧
      (sorter.sort batch).batch.Packed schema [] fun _ => [] := by
  have last := packed.last _ (Nat.sub_add_cancel sortable.some_fields)
  have noRows : batch.rowCount = 0 := by
    apply Column.toInt_eq_zero_iff.mp
    rw [rowCount_eq_columnAt, packed.columns_length, last.rowCount_eq]
    rfl
  rw [Sorter.sort_of_no_rows sorter noRows]
  refine ⟨rfl, ?_⟩
  exact {
    schema_eq := packed.schema_eq
    columns_length := packed.columns_length
    columns := by
      intro index earlier
      have represents := packed.columns index earlier
      rw [List.length_eq_zero_iff.mp (packed.length_cells index earlier)] at represents
      exact represents
    length_cells := fun _ _ => rfl
    last := packed.last }

/-- What is merged from a packed column is packed, and takes no more room. -/
private theorem represents_built {scratch : Batch} (packed : batch.Packed schema times cellsAt)
    (sortable : schema.Sortable) (bytesLt : CellsAddressable schema cellsAt)
    (built : Sorter.Built batch (Sorter.MergedOf batch) scratch) {index : Nat}
    (earlier : index + 1 < schema.length) :
    (scratch.columnAt index).Represents (schema.storageAt index)
        (Cell.sortedCells times (cellsAt index)) ∧
      (scratch.columnAt index).values.length ≤ (batch.columnAt index).values.length := by
  have represents := packed.columns index earlier
  have addressable := packed.addressable sortable bytesLt (Nat.lt_of_succ_lt earlier)
  have mergedFrom := built.columns index (by rw [packed.columns_length]; exact earlier)
  rw [Sorter.MergedOf, packed.times_eq sortable, packed.storage_eq] at mergedFrom
  have cellsEq := mergedFrom.cells_eq
  rw [represents.cells_eq addressable, ← TimeOrder.distinctTimes_rebuild times TimeOrder.empty,
    TimeOrder.distinctTimes_eq_ascending] at cellsEq
  have mergedRepresents := mergedFrom.represents _ represents
  rw [cellsEq] at mergedRepresents
  exact ⟨mergedRepresents, mergedFrom.values_le⟩

/-- A sort keeps each timestamp once and merges the cells of its rows, and adds no bytes. -/
theorem sort (sorter : Sorter) (packed : batch.Packed schema times cellsAt)
    (sortable : schema.Sortable) (bytesLt : CellsAddressable schema cellsAt) :
    (sorter.sort batch).error? = none ∧
      (sorter.sort batch).batch.Packed schema (TimeOrder.ascending times)
        (fun index => Cell.sortedCells times (cellsAt index)) ∧
      ∀ index, index + 1 < schema.length →
        (Cell.packed (Cell.sortedCells times (cellsAt index))).length ≤
          (Cell.packed (cellsAt index)).length := by
  rcases times.eq_nil_or_concat with none | ⟨front, time, timesEq⟩
  · subst none
    obtain ⟨sortOk, sorted⟩ := sort_of_no_times sorter packed sortable
    have noCells (cells : List Cell) : Cell.sortedCells [] cells = [] := by
      rw [Cell.sortedCells, TimeOrder.ascending_nil, List.map_nil]
    simp only [TimeOrder.ascending_nil, noCells]
    exact ⟨sortOk, sorted, fun _ _ => Nat.zero_le _⟩
  have someTimes : 0 < times.length := by
    rw [timesEq, List.length_concat]
    exact Nat.succ_pos _
  have mergeable := packed.mergeable sortable someTimes bytesLt
  have batchTimes := packed.times_eq sortable
  have columnsLength := packed.columns_length
  have distinctLt : (TimeOrder.ascending times).length < 2 ^ 31 := by
    have timesLt := mergeable.length_times_lt
    rw [batchTimes] at timesLt
    exact Nat.lt_of_le_of_lt (TimeOrder.length_ascending_le times) timesLt
  obtain ⟨nulls, scratch, built, sortEq⟩ := Sorter.sort_eq sorter mergeable
  have merged {index : Nat} (earlier : index + 1 < schema.length) :=
    packed.represents_built sortable bytesLt built earlier
  rw [sortEq, batchTimes, TimeOrder.distinctTimes_eq_ascending]
  refine ⟨rfl, ?_, ?_⟩
  · exact {
      schema_eq := by rw [built.schema_appendTimes, packed.schema_eq]
      columns_length := by rw [built.length_columns, columnsLength]
      columns := by
        intro index earlier
        rw [built.columnAt_earlier _ (by rw [columnsLength]; exact earlier)]
        exact (merged earlier).1
      length_cells := fun index _ => Cell.length_sortedCells times (cellsAt index)
      last := by
        intro index last
        rw [built.columnAt_last _ (by rw [columnsLength]; exact last)]
        exact Column.represents_times distinctLt }
  · intro index earlier
    have bound := (merged earlier).2
    rw [(merged earlier).1.values_eq, (packed.columns index earlier).values_eq] at bound
    exact bound

end Batch.Packed

namespace Sorter

/-! ## Sorting early -/

/-- Rows that are appended to sorted rows and sorted with them become the rows that they become when
all of them are sorted at once. -/
theorem sort_early (first second once : Sorter) {schema : Schema} (sortable : schema.Sortable)
    {earlier later : List Row} (fits : ∀ row ∈ earlier ++ later, row.Fits schema)
    (rowsLt : (earlier ++ later).length < 2 ^ 28)
    (textsLt : Batch.CellsAddressable schema (Row.cellsAt (earlier ++ later))) :
    (first.sort (.ofRows schema earlier)).error? = none ∧
      (second.sort ((first.sort (.ofRows schema earlier)).batch.appendRows later)).error? = none ∧
      (once.sort (.ofRows schema (earlier ++ later))).error? = none ∧
      (second.sort ((first.sort (.ofRows schema earlier)).batch.appendRows later)).batch.SameRows
        (once.sort (.ofRows schema (earlier ++ later))).batch := by
  have cellsAppend (index : Nat) : Row.cellsAt (earlier ++ later) index =
      Row.cellsAt earlier index ++ Row.cellsAt later index := List.map_append
  have bytesAppend (index : Nat) : (Cell.packed (Row.cellsAt (earlier ++ later) index)).length =
      (Cell.packed (Row.cellsAt earlier index)).length +
        (Cell.packed (Row.cellsAt later index)).length := by
    rw [cellsAppend, Cell.packed_append, List.length_append]
  have earlierFits : ∀ row ∈ earlier, row.Fits schema :=
    fun row member => fits row (List.mem_append_left later member)
  have laterFits : ∀ row ∈ later, row.Fits schema :=
    fun row member => fits row (List.mem_append_right earlier member)
  have sameLength (index : Nat) :
      (earlier.map Row.time).length = (Row.cellsAt earlier index).length := by
    rw [List.length_map, Row.cellsAt, List.length_map]
  have distinctLe : (TimeOrder.ascending (earlier.map Row.time)).length ≤ earlier.length := by
    rw [← List.length_map Row.time]
    exact TimeOrder.length_ascending_le _
  rw [List.length_append] at rowsLt
  -- All rows at once.
  obtain ⟨onceOk, oncePacked, onceLe⟩ := (Batch.Packed.ofRows fits (by
    rw [List.length_append]
    omega)).sort once sortable textsLt
  -- The rows in front, and then the others behind them.
  obtain ⟨firstOk, firstPacked, firstLe⟩ := (Batch.Packed.ofRows earlierFits (by omega)).sort
    first sortable (textsLt.mono fun index _ => by
      rw [bytesAppend]
      exact Nat.le_add_right _ _)
  obtain ⟨secondOk, secondPacked, -⟩ := (firstPacked.appendRows laterFits (by omega)).sort
    second sortable (textsLt.mono fun index earlierIndex => by
      rw [bytesAppend, Cell.packed_append, List.length_append]
      exact Nat.add_le_add_right (firstLe index earlierIndex) _)
  simp only [TimeOrder.ascending_append, Cell.sortedCells_early (sameLength _), ← cellsAppend,
    ← List.map_append] at secondPacked
  exact ⟨firstOk, secondOk, onceOk,
    secondPacked.sameRows oncePacked sortable (textsLt.mono onceLe)⟩

/-- Texts and truth values. -/
def flaggedTexts : Schema :=
  [⟨[116], .string⟩, ⟨[102], .boolean⟩, ⟨Field.timeName, .integer⟩]

def rowsInFront : List Row :=
  [⟨[some (.text [120]), none], 2⟩, ⟨[none, some (.boolean true)], 1⟩]

/-- Rows that repeat the timestamps of those in front, with a null where these have a value. -/
def rowsBehind : List Row :=
  [⟨[none, some (.boolean false)], 2⟩, ⟨[some (.text []), none], 1⟩]

theorem sort_early_flaggedTexts :
    flaggedTexts.Sortable ∧ (∀ row ∈ rowsInFront ++ rowsBehind, row.Fits flaggedTexts) ∧
      (rowsInFront ++ rowsBehind).length < 2 ^ 28 ∧
      Batch.CellsAddressable flaggedTexts (Row.cellsAt (rowsInFront ++ rowsBehind)) ∧
      (empty.sort (.ofRows flaggedTexts rowsInFront)).error? = none ∧
      (empty.sort ((empty.sort (.ofRows flaggedTexts rowsInFront)).batch.appendRows
        rowsBehind)).error? = none ∧
      (empty.sort (.ofRows flaggedTexts (rowsInFront ++ rowsBehind))).error? = none ∧
      (empty.sort ((empty.sort (.ofRows flaggedTexts rowsInFront)).batch.appendRows
          rowsBehind)).batch.SameRows
        (empty.sort (.ofRows flaggedTexts (rowsInFront ++ rowsBehind))).batch := by
  have threeFields : flaggedTexts.length = 3 := rfl
  have sortable : flaggedTexts.Sortable := {
    time_type := rfl
    kept := by
      intro index earlier
      obtain rfl | rfl : index = 0 ∨ index = 1 := by omega
      · decide
      · decide }
  have fits : ∀ row ∈ rowsInFront ++ rowsBehind, row.Fits flaggedTexts := by decide
  have rowsLt : (rowsInFront ++ rowsBehind).length < 2 ^ 28 := by decide
  have textsLt : Batch.CellsAddressable flaggedTexts
      (Row.cellsAt (rowsInFront ++ rowsBehind)) := by
    intro index earlier _
    obtain rfl | rfl : index = 0 ∨ index = 1 := by omega
    · decide
    · decide
  exact ⟨sortable, fits, rowsLt, textsLt,
    sort_early empty empty empty sortable fits rowsLt textsLt⟩

end Sorter

end Columnar
