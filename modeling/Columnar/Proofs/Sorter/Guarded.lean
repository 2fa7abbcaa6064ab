import Columnar.Proofs.Column.Filled
import Columnar.Proofs.Sorter.Building
import Columnar.Proofs.TimeOrder.Guarded
import Columnar.Sorter.Guarded

/-!
# When guarded sorting goes through

A guarded sort follows the plain one step by step.  A step that appends rows or removes one goes
through on a filled column whose rows are few enough, and leaves such a column (`Holding`).  So do
the runs of a time order one after the other, because no sort position adds more than one row
(`addRuns?_follows`), and then all columns of a batch.

The outcome is that of the plain sort, whatever the buffers held before (`sort?_eq`).
-/

namespace Columnar

/-- The rows, the bits and the bytes of a column are few enough to be counted in words with room to
spare. -/
structure Column.Bounded (column : Column) : Prop where
  rows_lt : column.rowCount.toInt < 2 ^ 28
  bits_lt : column.bitOffset.toInt + column.rowCount.toInt < 2 ^ 30
  values_lt : column.values.length < 2 ^ 32

instance (column : Column) : Decidable column.Bounded :=
  decidable_of_iff
    (column.rowCount.toInt < 2 ^ 28 ∧
      column.bitOffset.toInt + column.rowCount.toInt < 2 ^ 30 ∧ column.values.length < 2 ^ 32)
    ⟨fun ⟨rows, bits, values⟩ => ⟨rows, bits, values⟩,
      fun ⟨rows, bits, values⟩ => ⟨rows, bits, values⟩⟩

namespace SorterBuffers

open TimeOrder (Tiles timeAt sortedRows)

/-! ## Single steps -/

/-- A column that was filled with at most so many rows, the first of them in the first byte of the
bitmap. -/
structure Holding (storage : Storage) (count : Nat) (target : Column) : Prop
    extends target.Filled storage where
  bitOffset_lt : target.bitOffset.toInt < 8
  rowCount_le : target.rowCount.toInt ≤ count

/-- A guarded step goes through and leaves the column that the plain step leaves, with at most so
many rows. -/
def Follows (storage : Storage) (count : Nat) (guarded? : Option (Except UnsupportedType Column))
    (plain : Except UnsupportedType Column) : Prop :=
  ∃ target, guarded? = some (.ok target) ∧ plain = .ok target ∧ Holding storage count target

/-- A column whose rows can be appended, with its null index. -/
structure Appendable (type : ValueType) (source : Column) (nulls : NullIndex) : Prop where
  kept : type.storage ≠ .absent
  sound : source.Sound type.storage
  bounded : source.Bounded
  finds : nulls.Finds source

section Column

variable {type : ValueType} {source target : Column} {nulls : NullIndex} {count row first last : Nat}

theorem holding_empty (storage : Storage) : Holding storage 0 .empty where
  toFilled := .empty storage
  bitOffset_lt := by decide
  rowCount_le := Int.le_refl 0

theorem Holding.mono {storage : Storage} {more : Nat} (holding : Holding storage count target)
    (countLe : count ≤ more) : Holding storage more target where
  toFilled := holding.toFilled
  bitOffset_lt := holding.bitOffset_lt
  rowCount_le := Int.le_trans holding.rowCount_le (Int.ofNat_le.mpr countLe)

/-- Removing the last row follows the plain removal. -/
theorem removeLast?_follows (kept : type.storage ≠ .absent)
    (holding : Holding type.storage count target) (countLt : count < 2 ^ 28) :
    Follows type.storage count (target.removeLast? type) (target.removeLast type) := by
  have nonneg := holding.headerValid.nullCount_nonneg
  have nullsLe := holding.headerValid.nullCount_le
  have offsetLt := holding.bitOffset_lt
  have rowsLe := holding.rowCount_le
  by_cases noRows : target.rowCount = 0
  · refine ⟨target, ?_, ?_, holding⟩
    · rw [Column.removeLast?]
      split
      next absent => exact absurd absent kept
      next => rw [if_pos noRows]
    · rw [Column.removeLast]
      split
      next absent => exact absurd absent kept
      next => rw [if_pos noRows]
  · have different := mt Column.toInt_eq_zero_iff.mp noRows
    have nonempty : 0 < target.rowCount.toInt := by omega
    obtain ⟨rows, rowCountEq⟩ : ∃ rows : Nat, target.rowCount.toInt = (rows + 1 : Nat) :=
      ⟨target.rowCount.toInt.toNat - 1, by omega⟩
    have shorterRows := Column.rowCount_withoutLast rowCountEq type.storage
    refine ⟨target.withoutLast type.storage, ?_, Column.removeLast_of_kept kept nonempty, ?_⟩
    · rw [Column.removeLast?_of_kept kept nonempty,
        Column.withoutLast?_eq rowCountEq holding.toCounted holding.placed (by omega),
        Option.map_some]
    · exact {
        toFilled := holding.toFilled.withoutLast rowCountEq
        bitOffset_lt := offsetLt
        rowCount_le := by omega }

/-- Appending rows follows the plain append. -/
theorem appendRows?_follows (appendable : Appendable type source nulls)
    (holding : Holding type.storage count target) (ordered : first ≤ last)
    (inside : (last : Int) ≤ source.rowCount.toInt) (fits : count + (last - first) < 2 ^ 29) :
    Follows type.storage (count + (last - first))
      (source.appendRows? type first last nulls target)
      (source.appendRows type first last nulls target) := by
  have kept := appendable.kept
  have sound := appendable.sound
  have offsetLt := holding.bitOffset_lt
  have rowsLe := holding.rowCount_le
  have addressable : source.Addressable type.storage := fun _ => appendable.bounded.values_lt
  have sliceFits : source.SliceFits target first last := {
    ordered
    inside
    rows_fit := appendable.bounded.rows_lt
    source_bits_fit := appendable.bounded.bits_lt
    target_bits_fit := by omega }
  rw [Column.appendRows?_eq sound addressable appendable.finds holding.tight sliceFits,
    Column.appendRows_of_kept kept]
  split
  next => exact ⟨target, rfl, rfl, holding.mono (Nat.le_add_right _ _)⟩
  next someRows =>
    have nonempty : first < last := by omega
    split
    next whole =>
      obtain ⟨all, -⟩ := whole
      refine ⟨source.trimmed, rfl, rfl, .trimmed sound (by omega), ?_, ?_⟩
      · rw [Column.bitOffset_trimmed]
        omega
      · show source.rowCount.toInt ≤ _
        omega
    next =>
      have rows := Column.Filled.rowCount_appendRange sound holding.toFilled
        appendable.finds.ranks nonempty inside (by omega)
      refine ⟨_, rfl, rfl, ?_, offsetLt, by omega⟩
      exact .appendRange sound holding.toFilled appendable.finds.ranks nonempty inside (by omega)
        kept

theorem appendRange?_follows (appendable : Appendable type source nulls)
    (holding : Holding type.storage count target) (ordered : first ≤ last)
    (inside : (last : Int) ≤ source.rowCount.toInt) (fits : count + (last - first) < 2 ^ 29) :
    Follows type.storage (count + (last - first))
      (appendRange? source type nulls first last target)
      (Sorter.appendRange source type nulls first last target) := by
  rw [appendRange?, Sorter.appendRange]
  split
  next => exact appendRows?_follows appendable holding ordered inside fits
  next => exact ⟨target, rfl, rfl, holding.mono (Nat.le_add_right _ _)⟩

/-- Merging a row follows the plain merge. -/
theorem mergeRow?_follows (appendable : Appendable type source nulls)
    (holding : Holding type.storage count target) (inside : (row : Int) < source.rowCount.toInt)
    (countLt : count < 2 ^ 28) :
    Follows type.storage (count + 1) (mergeRow? source type nulls row target)
      (Sorter.mergeRow source type nulls row target) := by
  have rowsLt := appendable.bounded.rows_lt
  have bitsLt := appendable.bounded.bits_lt
  have place : (Int32.ofNat row).toInt = row := Int32.toInt_ofNat_of_lt (by omega)
  have next : (Int32.ofNat (row + 1)).toInt = (row + 1 : Nat) :=
    Int32.toInt_ofNat_of_lt (by omega)
  have nullEq := Column.isNull?_of_indexable appendable.sound.headerValid (.inr (by omega)) inside
  rw [mergeRow?, Sorter.mergeRow, Guarded.length?_eq (by omega)]
  simp only [Guarded.add?_one_eq (show row + 1 < 2 ^ 31 by omega), nullEq, Option.bind_eq_bind,
    Option.bind_some]
  split
  next => exact ⟨target, rfl, rfl, holding.mono (Nat.le_succ count)⟩
  next =>
    obtain ⟨shorter, removed?, removed, shorterHolding⟩ :=
      removeLast?_follows appendable.kept holding countLt
    have appended := appendRows?_follows appendable shorterHolding (Nat.le_succ row)
      (Int.add_one_le_of_lt inside) (by omega)
    rw [replaceLast?, removed?, removed, place, next]
    rw [Nat.succ_eq_add_one, Nat.add_sub_cancel_left] at appended
    exact appended

/-! ## Runs -/

variable {times : List Int64} {order : TimeOrder} {buffers : OrderBuffers} {position : Nat}

theorem repeatsTime?_eq (holds : buffers.Holds order) (inside : position < order.times.length) :
    buffers.repeatsTime? position = some (order.repeatsTime position) := by
  rw [OrderBuffers.repeatsTime?, TimeOrder.repeatsTime, holds.times_eq]
  split
  next later =>
    rw [List.getElem?_eq_getElem inside,
      List.getElem?_eq_getElem (Nat.lt_of_le_of_lt (Nat.sub_le _ _) inside), decide_eq_true later]
    simp
  next first => rw [decide_eq_false first, Bool.false_and]

/-- Adding the rows of a run follows the plain step. -/
theorem addRun?_follows (appendable : Appendable type source nulls) (holds : buffers.Holds order)
    (holding : Holding type.storage position target) (nonempty : 0 < count)
    (inside : ((first + count : Nat) : Int) ≤ source.rowCount.toInt)
    (positionsLe : position + count ≤ order.times.length)
    (timesLt : order.times.length < 2 ^ 28) :
    Follows type.storage (position + count)
      (addRun? source type nulls buffers target ⟨position, first, first + count⟩)
      (Sorter.addRun order source type nulls target ⟨position, first, first + count⟩) := by
  have positionLt : position < order.times.length := by omega
  rw [addRun?, Sorter.addRun, repeatsTime?_eq holds positionLt, Option.bind_eq_bind,
    Option.bind_some]
  split
  next =>
    obtain ⟨merged, merged?, mergedEq, mergedHolding⟩ :=
      mergeRow?_follows appendable holding (show (first : Int) < _ by omega) (by omega)
    have appended := appendRange?_follows appendable mergedHolding
      (show first + 1 ≤ first + count by omega) inside (by omega)
    have total : position + 1 + (first + count - (first + 1)) = position + count := by omega
    rw [total] at appended
    rw [merged?, mergedEq]
    exact appended
  next =>
    have appended := appendRange?_follows appendable holding (Nat.le_add_right first count) inside
      (by omega)
    rw [Nat.add_sub_cancel_left] at appended
    exact appended

/-- Adding the rows of runs follows the plain steps, run by run. -/
theorem addRuns?_follows (appendable : Appendable type source nulls) (holds : buffers.Holds order)
    (rowsEq : source.rowCount.toInt = times.length) (lengthEq : order.times.length = times.length)
    {ranges : List RowRange} {rows : List Nat} (tiles : Tiles times position ranges rows)
    {index : Nat} (rangesEq : order.rowRanges.drop index = ranges) (indexLe : index ≤ position)
    (positionsLe : position + rows.length ≤ times.length)
    (rowsLt : ∀ row ∈ rows, row < times.length)
    (holding : Holding type.storage position target) :
    Follows type.storage (position + rows.length)
      (addRuns? source type nulls buffers index ranges.length target)
      (ranges.foldlM (Sorter.addRun order source type nulls) target) := by
  have timesLt := appendable.bounded.rows_lt
  induction tiles generalizing index target with
  | nil => exact ⟨target, rfl, rfl, holding⟩
  | @cons position first count ranges rows nonempty distinct rest ih =>
    rw [List.length_append, List.length_range'] at positionsLe
    have lastLt : first + (count - 1) < times.length := by
      apply rowsLt
      apply List.mem_append_left
      rw [List.mem_range'_1]
      omega
    have rangeAt : order.rowRanges[index]? = some ⟨position, first, first + count⟩ := by
      have head := congrArg List.head? rangesEq
      rw [List.head?_drop] at head
      exact head
    have restEq : order.rowRanges.drop (index + 1) = ranges := by
      rw [← List.drop_drop, rangesEq]
      rfl
    obtain ⟨longer, longer?, longerEq, longerHolding⟩ :=
      addRun?_follows appendable holds holding nonempty (show ((first + count : Nat) : Int) ≤ _ by omega)
        (by omega) (by omega)
    have following := ih restEq (by omega) (by omega)
      (fun row member => rowsLt row (List.mem_append_right _ member)) longerHolding
    rw [Nat.add_assoc] at following
    rw [List.length_append, List.length_range', List.length_cons, addRuns?,
      holds.rowRange?_eq index _ (by omega) rangeAt, Option.bind_eq_bind, Option.bind_some, longer?,
      List.foldlM_cons, longerEq]
    exact following

/-! ## Single columns -/

theorem length_ends (runs : List Run) : (runs.flatMap Run.ends).length = 2 * runs.length := by
  induction runs with
  | nil => rfl
  | cons run rest ih =>
    rw [List.flatMap_cons, List.length_append, ih, List.length_cons, Run.ends]
    simp only [List.length_cons, List.length_nil]
    omega

theorem length_ranges_le {ranges : List RowRange} {rows : List Nat}
    (tiles : Tiles times position ranges rows) : ranges.length ≤ rows.length := by
  induction tiles with
  | nil => exact Nat.le_refl 0
  | cons nonempty distinct rest ih =>
    rw [List.length_cons, List.length_append, List.length_range']
    omega

/-- The number of runs is half the number of their bounds. -/
theorem mergeColumn?_eq (holds : buffers.Holds (order.rebuild times))
    (timesLt : times.length < 2 ^ 31) :
    mergeColumn? source type nulls buffers target =
      addRuns? source type nulls buffers 0 (order.rebuild times).rowRanges.length target := by
  have rangesLe := length_ranges_le (TimeOrder.tiles_rebuild times order)
  have bounds := congrArg List.length holds.bounds_eq
  have runs : (order.rebuild times).rowRanges.length = (order.rebuild times).runs.length :=
    List.length_map _
  rw [TimeOrder.length_sortedRows] at rangesLe
  rw [List.length_map, List.length_map, length_ends] at bounds
  have half : buffers.bounds.length / 2 = (order.rebuild times).rowRanges.length := by omega
  have countLt : (order.rebuild times).rowRanges.length < 2 ^ 31 := by omega
  rw [mergeColumn?, half, Guarded.length?_eq countLt, Option.bind_eq_bind, Option.bind_some,
    Int32.toInt_ofNat_of_lt countLt, Int.toNat_natCast]

/-- Merging a column follows the plain merge. -/
theorem mergeColumn?_follows (appendable : Appendable type source nulls)
    (holds : buffers.Holds (order.rebuild times))
    (rowsEq : source.rowCount.toInt = times.length) :
    Follows type.storage times.length (mergeColumn? source type nulls buffers .empty)
      (Sorter.mergeColumn (order.rebuild times) source type nulls .empty) := by
  have rowsLt := appendable.bounded.rows_lt
  have total := TimeOrder.length_sortedRows times
  have followed := addRuns?_follows appendable holds rowsEq
    (TimeOrder.length_times_rebuild times order) (TimeOrder.tiles_rebuild times order) List.drop_zero
    (Nat.le_refl 0) (by omega) (fun row member => (TimeOrder.mem_sortedRows times).mp member)
    (holding_empty type.storage)
  rw [Nat.zero_add, total] at followed
  rw [mergeColumn?_eq holds (by omega), Sorter.mergeColumn]
  exact followed

/-- Merging a column of a type without storage fails as the plain merge does. -/
theorem mergeColumn?_absent (absent : type.storage = .absent)
    (holds : buffers.Holds (order.rebuild times)) (nonempty : 0 < times.length)
    (timesLt : times.length < 2 ^ 31) :
    mergeColumn? source type nulls buffers target = some (.error ⟨type⟩) := by
  have tiles := TimeOrder.tiles_rebuild times order
  have total := TimeOrder.length_sortedRows times
  rw [mergeColumn?_eq holds timesLt]
  generalize rangesEq : (order.rebuild times).rowRanges = ranges at tiles
  generalize sortedRows times = rows at tiles total
  cases tiles with
  | nil =>
    rw [List.length_nil] at total
    omega
  | @cons _ first count ranges rest someRows distinct tiles =>
    have rangeAt : (order.rebuild times).rowRanges[0]? = some ⟨0, first, first + count⟩ := by
      rw [rangesEq]
      rfl
    have hasRows : first < first + count := by omega
    have starts : buffers.repeatsTime? 0 = some false := rfl
    have failed : source.appendRows? type first (first + count : Nat) nulls target =
        some (.error ⟨type⟩) := by
      rw [Column.appendRows?, absent]
    have failedRun : addRun? source type nulls buffers target ⟨0, first, first + count⟩ =
        some (.error ⟨type⟩) := by
      rw [addRun?, starts, Option.bind_eq_bind, Option.bind_some, if_neg Bool.false_ne_true,
        appendRange?, if_pos hasRows, failed]
    rw [List.length_cons, addRuns?, holds.rowRange?_eq 0 _ (by decide) rangeAt,
      Option.bind_eq_bind, Option.bind_some, failedRun]
    rfl

end Column

end SorterBuffers

/-! ## All columns -/

/-- A batch with rows that fit together, with a timestamp for each of them, whose null counts are
exact and whose columns are of bounded size. -/
structure Batch.Countable (batch : Batch) : Prop where
  some_rows : batch.rowCount ≠ 0
  matching : batch.mismatch? = none
  time_storage : (batch.fieldAt (batch.schema.length - 1)).type.storage = .packed 8
  nullCount_eq : ∀ index < batch.columns.length,
    (batch.columnAt index).nullCount.toInt = (batch.columnAt index).clearRows
  bounded : ∀ index < batch.columns.length, (batch.columnAt index).Bounded

namespace Batch.Countable

variable {batch : Batch} (countable : batch.Countable)
include countable

theorem length_times : batch.rowCount.toInt = batch.times.length :=
  length_times_of_matching countable.some_rows countable.matching countable.time_storage

theorem times_pos : 0 < batch.times.length := by
  have rows := countable.length_times
  have someRows := mt Column.toInt_eq_zero_iff.mp countable.some_rows
  omega

theorem rowCount_eq {index : Nat} (inside : index < batch.columns.length) :
    (batch.columnAt index).rowCount.toInt = batch.times.length := by
  rw [← countable.length_times, ((batch.mismatch?_eq_none_iff.mp countable.matching).2.2 index
    inside).1]

theorem times_lt : batch.times.length < 2 ^ 28 := by
  have someColumns := columns_pos_of_rows countable.some_rows
  have rows := countable.rowCount_eq someColumns
  have rowsLt := (countable.bounded 0 someColumns).rows_lt
  omega

theorem sound {index : Nat} (inside : index < batch.columns.length) :
    (batch.columnAt index).Sound (batch.fieldAt index).type.storage :=
  .of_accepted ((batch.mismatch?_eq_none_iff.mp countable.matching).2.2 index inside).2
    (countable.nullCount_eq index inside)

/-- The null index of a column is rebuilt, whatever it held. -/
theorem rebuild?_eq {index : Nat} (inside : index < batch.columns.length) (nulls : NullIndex) :
    nulls.rebuild? (batch.columnAt index) (batch.times.length + 1) =
      some (nulls.rebuild (batch.columnAt index) (batch.times.length + 1)) := by
  have timesLt := countable.times_lt
  have bitsLt := (countable.bounded index inside).bits_lt
  exact NullIndex.rebuild?_eq (countable.sound inside).headerValid (.inr (by omega)) nulls
    (by rw [countable.rowCount_eq inside]; rfl) (by omega)

theorem appendable {index : Nat} (inside : index < batch.columns.length)
    (kept : (batch.fieldAt index).type.storage ≠ .absent) (nulls : NullIndex) :
    SorterBuffers.Appendable (batch.fieldAt index).type (batch.columnAt index)
      (nulls.rebuild (batch.columnAt index) (batch.times.length + 1)) where
  kept
  sound := countable.sound inside
  bounded := countable.bounded index inside
  finds := by
    have finds := NullIndex.finds_rebuild (countable.sound inside).headerValid nulls
    rw [countable.rowCount_eq inside, Int.toNat_natCast] at finds
    exact finds

end Batch.Countable

namespace SorterBuffers

open TimeOrder (Tiles timeAt sortedRows)

variable {batch : Batch} {buffers : SorterBuffers} {order : TimeOrder}

/-- The columns of a batch are built, or not, as in the plain sort. -/
theorem mergeColumns?_eq (countable : batch.Countable)
    (holds : buffers.order.Holds (order.rebuild batch.times)) {index count : Nat}
    (schemaEq : buffers.scratch.schema = batch.schema)
    (fresh : ∀ place, index ≤ place → buffers.scratch.columnAt place = .empty)
    (room : index + count ≤ buffers.scratch.columns.length)
    (inside : index + count ≤ batch.columns.length) :
    ∃ built, mergeColumns? batch index count buffers =
        some (built, (Sorter.mergeColumns batch index count
          ⟨order.rebuild batch.times, buffers.nulls, buffers.scratch⟩).2) ∧
      built.order = buffers.order ∧
      built.scratch = (Sorter.mergeColumns batch index count
        ⟨order.rebuild batch.times, buffers.nulls, buffers.scratch⟩).1.scratch := by
  induction count generalizing index buffers with
  | zero => exact ⟨buffers, rfl, rfl, rfl⟩
  | succ count ih =>
    have indexLt : index < batch.columns.length := by omega
    have timesLt := countable.times_lt
    have fieldEq := Batch.fieldAt_congr schemaEq index
    have timesLength : buffers.order.times.length = batch.times.length := by
      rw [holds.times_eq, TimeOrder.length_times_rebuild]
    simp only [mergeColumns?, Sorter.mergeColumns, timesLength, TimeOrder.length_times_rebuild,
      countable.rebuild?_eq indexLt, fieldEq, fresh index (Nat.le_refl index), Option.bind_eq_bind,
      Option.bind_some]
    by_cases absent : (batch.fieldAt index).type.storage = .absent
    · rw [mergeColumn?_absent absent holds countable.times_pos (by omega),
        Sorter.mergeColumn_absent absent _ _ _ order countable.times_pos]
      exact ⟨_, rfl, rfl, rfl⟩
    · obtain ⟨merged, merged?, mergedEq, -⟩ := mergeColumn?_follows
        (countable.appendable indexLt absent buffers.nulls) holds (countable.rowCount_eq indexLt)
      rw [merged?, mergedEq]
      have indexInside : index < buffers.scratch.columns.length := by omega
      let later : SorterBuffers := ⟨buffers.order,
        buffers.nulls.rebuild (batch.columnAt index) (batch.times.length + 1),
        { buffers.scratch with columns := buffers.scratch.columns.set index merged }⟩
      have laterFresh : ∀ place, index + 1 ≤ place → later.scratch.columnAt place = .empty := by
        intro place behind
        rw [Sorter.columnAt_set merged indexInside, if_neg (by omega)]
        exact fresh place (by omega)
      have laterRoom : index + 1 + count ≤ later.scratch.columns.length := by
        rw [List.length_set]
        omega
      exact @ih later holds (index + 1) schemaEq laterFresh laterRoom (by omega)

/-- The guarded sort of a batch goes through with the outcome of the plain sort. -/
theorem sort?_eq (countable : batch.Countable) (buffers : SorterBuffers) (order : TimeOrder) :
    ∃ kept, buffers.sort? batch = some {
        sorter := kept
        batch := (Sorter.sort batch ⟨order, buffers.nulls, buffers.scratch⟩).batch
        error? := (Sorter.sort batch ⟨order, buffers.nulls, buffers.scratch⟩).error?
        log := (Sorter.sort batch ⟨order, buffers.nulls, buffers.scratch⟩).log } ∧
      buffers.order.rebuild? batch.times = some kept.order := by
  have timesLt := countable.times_lt
  have timesPos := countable.times_pos
  have fields := (batch.mismatch?_eq_none_iff.mp countable.matching).1
  have someColumns := Batch.columns_pos_of_rows countable.some_rows
  obtain ⟨rebuilt, rebuiltEq, holds⟩ :=
    OrderBuffers.exists_rebuild? (show batch.times.length < 2 ^ 31 by omega) buffers.order order
  have cleared : buffers.scratch.resetTo batch.schema = .ofSchema batch.schema :=
    Batch.resetTo_eq_ofSchema _ _
  have room : (Batch.ofSchema batch.schema).columns.length = batch.schema.length :=
    List.length_replicate
  obtain ⟨built, builtEq, orderEq, scratchEq⟩ := @mergeColumns?_eq batch
    ⟨rebuilt, buffers.nulls, .ofSchema batch.schema⟩ order countable holds 0
    (batch.schema.length - 1) rfl (fun place _ => Batch.columnAt_ofSchema batch.schema place)
    (by rw [room]; omega) (by omega)
  have plainOrder := Sorter.order_mergeColumns batch 0 (batch.schema.length - 1)
    ⟨order.rebuild batch.times, buffers.nulls, .ofSchema batch.schema⟩
  have timesEq : built.order.times = (order.rebuild batch.times).times := by
    rw [orderEq]
    exact holds.times_eq
  have someTimes : built.order.times ≠ [] := by
    apply List.ne_nil_of_length_pos
    rw [timesEq, TimeOrder.length_times_rebuild]
    exact timesPos
  rw [sort?, Sorter.sort, if_neg countable.some_rows, if_neg countable.some_rows,
    countable.matching]
  simp only [rebuiltEq, Sorter.prepare, cleared, builtEq, Option.bind_eq_bind, Option.bind_some]
  generalize Sorter.mergeColumns batch 0 (batch.schema.length - 1)
    ⟨order.rebuild batch.times, buffers.nulls, .ofSchema batch.schema⟩ = plain
    at scratchEq plainOrder ⊢
  obtain ⟨plain, error?⟩ := plain
  cases error? with
  | some cause => exact ⟨built, rfl, congrArg some orderEq.symm⟩
  | none =>
    have distinctEq : plain.order.distinctTimes = TimeOrder.withoutRepeats built.order.times := by
      rw [plainOrder, timesEq]
      rfl
    refine ⟨{ built with scratch := batch }, ?_, congrArg some orderEq.symm⟩
    simp only [finish?, if_neg someTimes, scratchEq, distinctEq]

/-- A batch without rows and one whose columns do not fit together are given back at once. -/
theorem sort?_of_not_matching (untouched : batch.rowCount = 0 ∨ batch.mismatch? ≠ none)
    (buffers : SorterBuffers) (order : TimeOrder) :
    buffers.sort? batch = some {
      sorter := buffers
      batch := (Sorter.sort batch ⟨order, buffers.nulls, buffers.scratch⟩).batch
      error? := (Sorter.sort batch ⟨order, buffers.nulls, buffers.scratch⟩).error?
      log := (Sorter.sort batch ⟨order, buffers.nulls, buffers.scratch⟩).log } := by
  rw [sort?, Sorter.sort]
  split
  next => rfl
  next someRows =>
    cases mismatch : batch.mismatch? with
    | some cause => rfl
    | none =>
      rcases untouched with noRows | mismatched
      · exact absurd noRows someRows
      · exact absurd mismatch mismatched

end SorterBuffers

/-! ## Counted batches -/

/-- A batch whose null counts are exact and whose columns are of bounded size.  If it has a column
for each field, the last one is of integers. -/
structure Batch.Counted (batch : Batch) : Prop where
  time_type : batch.columns.length = batch.schema.length →
    ∀ field ∈ batch.schema.getLast?, field.type = .integer
  nullCount_eq : ∀ index < batch.columns.length,
    (batch.columnAt index).nullCount.toInt = (batch.columnAt index).clearRows
  bounded : ∀ index < batch.columns.length, (batch.columnAt index).Bounded

instance (batch : Batch) : Decidable batch.Counted :=
  decidable_of_iff
    ((batch.columns.length = batch.schema.length →
        ∀ field ∈ batch.schema.getLast?, field.type = .integer) ∧
      (∀ index < batch.columns.length,
        (batch.columnAt index).nullCount.toInt = (batch.columnAt index).clearRows) ∧
      ∀ index < batch.columns.length, (batch.columnAt index).Bounded)
    ⟨fun ⟨type, nulls, bounded⟩ => ⟨type, nulls, bounded⟩,
      fun ⟨type, nulls, bounded⟩ => ⟨type, nulls, bounded⟩⟩

namespace Batch.Counted

variable {batch : Batch} (counted : batch.Counted) (someRows : batch.rowCount ≠ 0)
  (matching : batch.mismatch? = none)
include counted someRows matching

theorem last_type : (batch.fieldAt (batch.schema.length - 1)).type = .integer := by
  have fields := (batch.mismatch?_eq_none_iff.mp matching).1
  have someColumns := columns_pos_of_rows someRows
  have lastInside : batch.schema.length - 1 < batch.schema.length := by omega
  apply counted.time_type fields
  rw [fieldAt, List.getLast?_eq_getElem?, List.getElem?_eq_getElem lastInside]
  rfl

theorem countable : batch.Countable where
  some_rows := someRows
  matching
  time_storage := congrArg ValueType.storage (counted.last_type someRows matching)
  nullCount_eq := counted.nullCount_eq
  bounded := counted.bounded

end Batch.Counted

namespace SorterBuffers

variable {batch : Batch}

/-- The guarded sort of a counted batch goes through with the outcome of the plain sort, and the
time order is that of its timestamps if it was put in order. -/
theorem sort?_of_counted (counted : batch.Counted) (buffers : SorterBuffers) (order : TimeOrder) :
    ∃ kept, buffers.sort? batch = some {
        sorter := kept
        batch := (Sorter.sort batch ⟨order, buffers.nulls, buffers.scratch⟩).batch
        error? := (Sorter.sort batch ⟨order, buffers.nulls, buffers.scratch⟩).error?
        log := (Sorter.sort batch ⟨order, buffers.nulls, buffers.scratch⟩).log } ∧
      (batch.rowCount ≠ 0 → batch.mismatch? = none →
        batch.times.length < 2 ^ 31 ∧ buffers.order.rebuild? batch.times = some kept.order) := by
  by_cases ordered : batch.rowCount ≠ 0 ∧ batch.mismatch? = none
  · have countable := counted.countable ordered.1 ordered.2
    obtain ⟨kept, sorted, rebuilt⟩ := sort?_eq countable buffers order
    have timesLt := countable.times_lt
    exact ⟨kept, sorted, fun _ _ => ⟨by omega, rebuilt⟩⟩
  · have untouched : batch.rowCount = 0 ∨ batch.mismatch? ≠ none := by
      by_contra both
      rw [not_or, not_not] at both
      exact ordered both
    refine ⟨buffers, sort?_of_not_matching untouched buffers order, ?_⟩
    intro someRows matching
    exact absurd ⟨someRows, matching⟩ ordered

/-- A sort stops if the nulls of the first column cannot be counted. -/
theorem sort?_eq_none (someRows : batch.rowCount ≠ 0) (matching : batch.mismatch? = none)
    (several : 1 < batch.schema.length) (timesLt : batch.times.length < 2 ^ 31)
    (missing : ∀ nulls : NullIndex,
      nulls.rebuild? (batch.columnAt 0) (batch.times.length + 1) = none)
    (buffers : SorterBuffers) : buffers.sort? batch = none := by
  obtain ⟨rebuilt, rebuiltEq, holds⟩ := OrderBuffers.exists_rebuild? timesLt buffers.order .empty
  have length : rebuilt.times.length = batch.times.length := by
    rw [holds.times_eq, TimeOrder.length_times_rebuild]
  have stopped (count : Nat) (positive : 0 < count) (nulls : NullIndex) (scratch : Batch) :
      mergeColumns? batch 0 count ⟨rebuilt, nulls, scratch⟩ = none := by
    cases count with
    | zero => exact absurd positive (Nat.lt_irrefl 0)
    | succ count =>
      simp only [mergeColumns?, length, missing, Option.bind_eq_bind, Option.bind_none]
  rw [sort?, if_neg someRows, matching]
  simp only [rebuiltEq, stopped _ (Nat.sub_pos_of_lt several), Option.bind_eq_bind,
    Option.bind_some, Option.bind_none]

/-! ## Bits without an index -/

/-- Two null rows, of which only the first has a bit with an index, beside two timestamps. -/
def lateRows : Batch where
  schema := [⟨[118], .integer⟩, ⟨Field.timeName, .integer⟩]
  columns := [NullIndex.allNull Int32.maxValue 2 (2 ^ 28 + 1),
    Column.empty.appendEach Column.appendInteger [0, 1]]

theorem packs_lateNulls :
    (NullIndex.allNull Int32.maxValue 2 (2 ^ 28 + 1)).Packs 8 (List.replicate 2 none) :=
  NullIndex.packs_allNull (by decide) (by decide) (by decide) 8

theorem nullCount_lateRows : ∀ index < lateRows.columns.length,
    (lateRows.columnAt index).nullCount.toInt = (lateRows.columnAt index).clearRows := by
  intro index inside
  match index with
  | 0 => exact packs_lateNulls.nullCount_eq
  | 1 => decide +kernel
  | index + 2 => exact absurd inside (Nat.not_lt.mpr (Nat.le_add_left 2 index))

theorem mismatch?_lateRows : lateRows.mismatch? = none := by
  have layout : (NullIndex.allNull Int32.maxValue 2 (2 ^ 28 + 1)).layoutError? .integer = none :=
    (Column.layoutError?_eq_none_iff _ _).mpr ⟨packs_lateNulls.headerValid, rfl⟩
  apply (Batch.mismatch?_eq_none_iff _).mpr
  refine ⟨rfl, rfl, ?_⟩
  intro index inside
  match index with
  | 0 => exact ⟨rfl, layout⟩
  | 1 => exact ⟨rfl, by decide +kernel⟩
  | index + 2 => exact absurd inside (Nat.not_lt.mpr (Nat.le_add_left 2 index))

theorem rebuild?_lateNulls (nulls : NullIndex) :
    nulls.rebuild? (NullIndex.allNull Int32.maxValue 2 (2 ^ 28 + 1)) (2 + 1) = none := by
  have someNulls : (2 : Int32) ≠ 0 := by decide
  have reaches : 2 ^ 31 ≤ Int32.maxValue.toInt + (Int32.ofNat 1).toInt := by decide
  have overflows : (NullIndex.allNull Int32.maxValue 2 (2 ^ 28 + 1)).isNull? (Int32.ofNat 1) =
      none := by
    rw [Column.isNull?_of_headerValid packs_lateNulls.headerValid (by decide) (by decide),
      if_pos ⟨someNulls, reaches⟩]
  exact NullIndex.rebuild?_eq_none_of_isNull? someNulls overflows (by decide) nulls

theorem rowCount_lateRows : lateRows.rowCount ≠ 0 := by decide

theorem times_lateRows : lateRows.times = [0, 1] := by decide

theorem sort?_lateRows_eq_none (buffers : SorterBuffers) : buffers.sort? lateRows = none := by
  apply sort?_eq_none rowCount_lateRows mismatch?_lateRows (by decide)
  · rw [times_lateRows]
    decide
  · rw [times_lateRows]
    exact rebuild?_lateNulls

end SorterBuffers

end Columnar
