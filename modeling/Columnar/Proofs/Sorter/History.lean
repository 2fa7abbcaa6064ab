import Columnar.Proofs.Sorter.Guarded

/-!
# Sorters that sorted before

A sorter keeps its storage from one sort to the next, and a refused sort may leave it half filled.
`sort?_sortEach` says that nothing of this can be seen: after any sequence of sorts of counted
batches a batch becomes what a new sorter makes of it, with the same error, the same messages and
the same time order.

Each part of the storage has its own reason.  The time order is written anew and the scratch batch
is cleared.  The null index is written anew where the column has nulls, and where it has none the
old entries stay, but no rank looks at them (`rank_rebuild`).
-/

namespace Columnar

/-! ## Reused storage -/

theorem TimeOrder.rebuild_congr (times : List Int64) (first second : TimeOrder) :
    first.rebuild times = second.rebuild times :=
  rfl

namespace NullIndex

/-- Ranks in a rebuilt index do not depend on what it held. -/
theorem rank_rebuild (column : Column) (size : Nat) (first second : NullIndex) :
    (first.rebuild column size).rank = (second.rebuild column size).rank := by
  funext row
  rw [rebuild, rebuild]
  split
  next noNulls => rw [rank_of_total_eq_zero rfl, rank_of_total_eq_zero rfl]
  next someNulls => rfl

end NullIndex

/-- Rows are found through their ranks alone. -/
theorem Column.appendRows_congr (source : Column) (type : ValueType) (first last : Int)
    {nulls other : NullIndex} (sameRank : nulls.rank = other.rank) :
    source.appendRows type first last nulls = source.appendRows type first last other := by
  funext target
  simp only [appendRows, appendRange, sameRank]

namespace Sorter

/-! ## Two sorters -/

/-- Sorters that differ at most in their null indices. -/
structure Agree (first second : Sorter) : Prop where
  order_eq : first.order = second.order
  scratch_eq : first.scratch = second.scratch

variable {first second : Sorter}

theorem prepare_agree (batch : Batch) (first second : Sorter) :
    (first.prepare batch).Agree (second.prepare batch) where
  order_eq := TimeOrder.rebuild_congr batch.times first.order second.order
  scratch_eq := by
    rw [prepare, prepare, Batch.resetTo_eq_ofSchema, Batch.resetTo_eq_ofSchema]

theorem mergeColumn_congr (order : TimeOrder) (source : Column) (type : ValueType)
    {nulls other : NullIndex} (sameRank : nulls.rank = other.rank) :
    mergeColumn order source type nulls = mergeColumn order source type other := by
  have run : addRun order source type nulls = addRun order source type other := by
    funext target range
    simp only [addRun, mergeRow, appendRange, Column.appendRows_congr source type _ _ sameRank]
  funext target
  rw [mergeColumn, mergeColumn, run]

/-- Columns are built alike up to the same column, and the sorters agree again. -/
theorem mergeColumns_agree (batch : Batch) (agree : first.Agree second) (index count : Nat) :
    (mergeColumns batch index count first).1.Agree (mergeColumns batch index count second).1 ∧
      (mergeColumns batch index count first).2 = (mergeColumns batch index count second).2 := by
  induction count generalizing index first second with
  | zero => exact ⟨agree, rfl⟩
  | succ count ih =>
    have sameRank := NullIndex.rank_rebuild (batch.columnAt index)
      (second.order.times.length + 1) first.nulls second.nulls
    rw [mergeColumns, mergeColumns, agree.order_eq, agree.scratch_eq,
      mergeColumn_congr _ _ _ sameRank]
    cases mergeColumn second.order (batch.columnAt index) (second.scratch.fieldAt index).type
        (second.nulls.rebuild (batch.columnAt index) (second.order.times.length + 1))
        (second.scratch.columnAt index) with
    | error cause => exact ⟨⟨rfl, rfl⟩, rfl⟩
    | ok merged =>
      apply ih
      exact ⟨rfl, rfl⟩

/-- Two sorters make the same of a batch. -/
theorem sort_congr (batch : Batch) (first second : Sorter) :
    (first.sort batch).batch = (second.sort batch).batch ∧
      (first.sort batch).error? = (second.sort batch).error? ∧
      (first.sort batch).log = (second.sort batch).log ∧
      (batch.rowCount ≠ 0 → batch.mismatch? = none →
        (first.sort batch).sorter.order = (second.sort batch).sorter.order) := by
  obtain ⟨agree, sameError⟩ := mergeColumns_agree batch (prepare_agree batch first second) 0
    (batch.schema.length - 1)
  rw [sort, sort]
  split
  next noRows => exact ⟨rfl, rfl, rfl, fun someRows => absurd noRows someRows⟩
  next someRows =>
    cases mismatch : batch.mismatch? with
    | some cause => exact ⟨rfl, rfl, rfl, fun _ noneEq => absurd noneEq (Option.some_ne_none cause)⟩
    | none =>
      generalize mergeColumns batch 0 (batch.schema.length - 1) (first.prepare batch) = built
        at agree sameError ⊢
      generalize mergeColumns batch 0 (batch.schema.length - 1) (second.prepare batch) = other
        at agree sameError ⊢
      obtain ⟨built, error?⟩ := built
      obtain ⟨other, otherError?⟩ := other
      obtain rfl : error? = otherError? := sameError
      cases error? with
      | some cause => exact ⟨rfl, rfl, rfl, fun _ _ => agree.order_eq⟩
      | none =>
        have sameBatch : built.scratch.appendTimes built.order.distinctTimes =
            other.scratch.appendTimes other.order.distinctTimes := by
          rw [agree.order_eq, agree.scratch_eq]
        exact ⟨sameBatch, rfl, rfl, fun _ _ => agree.order_eq⟩

end Sorter

namespace SorterBuffers

/-! ## Any history -/

variable {history : List Batch} {batch : Batch}

/-- Counted batches can be sorted one after the other, whatever becomes of each. -/
theorem exists_sortEach? (historyCounted : ∀ earlier ∈ history, earlier.Counted)
    (buffers : SorterBuffers) : ∃ used, buffers.sortEach? history = some used := by
  induction history generalizing buffers with
  | nil => exact ⟨buffers, rfl⟩
  | cons first rest ih =>
    obtain ⟨firstCounted, restCounted⟩ := List.forall_mem_cons.mp historyCounted
    obtain ⟨kept, sorted, -⟩ := sort?_of_counted firstCounted buffers .empty
    obtain ⟨used, usedEq⟩ := ih restCounted kept
    refine ⟨used, ?_⟩
    rw [sortEach?, List.foldlM_cons, sorted]
    exact usedEq

/-- Of a counted batch a sorter that was given counted batches before makes what a new one makes of
it. -/
theorem sort?_sortEach (historyCounted : ∀ earlier ∈ history, earlier.Counted)
    (counted : batch.Counted) :
    ∃ used fresh after, empty.sortEach? history = some used ∧ empty.sort? batch = some fresh ∧
      used.sort? batch = some after ∧ after.batch = fresh.batch ∧ after.error? = fresh.error? ∧
      after.log = fresh.log ∧
      (batch.rowCount ≠ 0 → batch.mismatch? = none →
        after.sorter.order = fresh.sorter.order) := by
  obtain ⟨used, usedEq⟩ := exists_sortEach? historyCounted empty
  obtain ⟨freshKept, freshEq, freshOrder⟩ := sort?_of_counted counted empty .empty
  obtain ⟨usedKept, afterEq, afterOrder⟩ := sort?_of_counted counted used .empty
  obtain ⟨sameBatch, sameError, sameLog, -⟩ := Sorter.sort_congr batch
    ⟨.empty, used.nulls, used.scratch⟩ ⟨.empty, empty.nulls, empty.scratch⟩
  refine ⟨used, _, _, usedEq, freshEq, afterEq, sameBatch, sameError, sameLog, ?_⟩
  intro someRows matching
  obtain ⟨timesLt, rebuilt⟩ := afterOrder someRows matching
  rw [OrderBuffers.rebuild?_congr timesLt used.order empty.order,
    (freshOrder someRows matching).2] at rebuilt
  exact (Option.some.inj rebuilt).symm

/-- Three rows, of which the last column has no timestamp for the third. -/
def missingTime : Batch where
  schema := [⟨[97], .boolean⟩, ⟨Field.timeName, .integer⟩]
  columns := [
    Column.empty.appendEach Column.appendBoolean [true, false, true],
    Column.empty.appendEach Column.appendInteger [4, 2]]

/-- The first column can be built and leaves a null count, the second one has no storage. -/
def unstoredNulls : Batch where
  schema := [⟨[97], .integer⟩, ⟨[98], .unsigned⟩, ⟨Field.timeName, .integer⟩]
  columns := [
    (Column.empty.appendInteger 7).appendNull,
    Column.empty.appendNulls 2,
    Column.empty.appendEach Column.appendInteger [2, 1]]

/-- Two rows with one timestamp, the first without a text. -/
def repeatedTime : Batch where
  schema := [⟨[116], .string⟩, ⟨Field.timeName, .integer⟩]
  columns := [
    Column.empty.appendTextNull.appendText [120],
    Column.empty.appendEach Column.appendInteger [3, 3]]

theorem sort?_repeatedTime :
    (∀ earlier ∈ [missingTime, unstoredNulls], earlier.Counted) ∧ repeatedTime.Counted ∧
      repeatedTime.rowCount ≠ 0 ∧ repeatedTime.mismatch? = none ∧
      ∃ used fresh after, empty.sortEach? [missingTime, unstoredNulls] = some used ∧
        empty.sort? repeatedTime = some fresh ∧ used.sort? repeatedTime = some after ∧
        after.batch = fresh.batch ∧ after.error? = fresh.error? ∧ after.log = fresh.log ∧
        after.sorter.order = fresh.sorter.order := by
  have historyCounted : ∀ earlier ∈ [missingTime, unstoredNulls], earlier.Counted := by
    decide +kernel
  have counted : repeatedTime.Counted := by decide +kernel
  have someRows : repeatedTime.rowCount ≠ 0 := by decide +kernel
  have matching : repeatedTime.mismatch? = none := by decide +kernel
  obtain ⟨used, fresh, after, usedEq, freshEq, afterEq, sameBatch, sameError, sameLog, sameOrder⟩ :=
    sort?_sortEach historyCounted counted
  exact ⟨historyCounted, counted, someRows, matching, used, fresh, after, usedEq, freshEq, afterEq,
    sameBatch, sameError, sameLog, sameOrder someRows matching⟩

/-- Null counts are exact and the columns fit together, yet a new sorter has no outcome. -/
theorem sort?_lateRows_of_empty :
    (∀ field ∈ lateRows.schema.getLast?, field.type = .integer) ∧
      (∀ index < lateRows.columns.length,
        (lateRows.columnAt index).nullCount.toInt = (lateRows.columnAt index).clearRows) ∧
      lateRows.rowCount ≠ 0 ∧ lateRows.mismatch? = none ∧ empty.sort? lateRows = none :=
  ⟨by decide, nullCount_lateRows, rowCount_lateRows, mismatch?_lateRows,
    sort?_lateRows_eq_none empty⟩

end SorterBuffers

end Columnar
