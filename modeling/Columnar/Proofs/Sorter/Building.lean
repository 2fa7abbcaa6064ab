import Columnar.Proofs.Column.Integers
import Columnar.Proofs.TimeOrder
import Columnar.Sorter

/-!
# Results that are built column by column

A sort clears the scratch batch, builds one column after the other in it, each in its own place,
and at last appends the distinct timestamps to the time column.  What is true of the built columns
depends on what is known of the batch.  Here this is a property of a place and a column: if every
column merges into one that has the property, then the sort succeeds and all columns of its result
but the last have it (`sort_of_merges`).

A sort gets that far unless the batch has no rows or something keeps its columns from being sorted
together; `mismatch?_eq_none_iff` says what does.
-/

namespace Columnar

namespace Batch

variable {batch : Batch}

theorem fieldAt_congr {first second : Batch} (schemaEq : first.schema = second.schema)
    (index : Nat) : first.fieldAt index = second.fieldAt index := by
  rw [fieldAt, schemaEq, fieldAt]

theorem columnAt_ofSchema (schema : Schema) (index : Nat) :
    (ofSchema schema).columnAt index = .empty := by
  rw [columnAt, ofSchema, List.getElem?_replicate]
  split <;> rfl

theorem eq_of_columnAt_eq {first second : Batch} (schemaEq : first.schema = second.schema)
    (lengthEq : first.columns.length = second.columns.length)
    (columnAtEq : ∀ index < first.columns.length, first.columnAt index = second.columnAt index) :
    first = second := by
  have columnsEq : first.columns = second.columns := by
    apply List.ext_getElem lengthEq
    intro index inside otherInside
    have same := columnAtEq index inside
    rw [columnAt, columnAt, List.getElem?_eq_getElem inside,
      List.getElem?_eq_getElem otherInside] at same
    exact same
  cases first
  cases second
  cases schemaEq
  cases columnsEq
  rfl

/-! ## The last column -/

theorem schema_appendTimes (times : List Int64) (batch : Batch) :
    (batch.appendTimes times).schema = batch.schema := by
  induction times generalizing batch with
  | nil => rfl
  | cons time rest ih => exact ih (batch.appendTime time)

theorem columns_appendTimes (times : List Int64) (batch : Batch) :
    (batch.appendTimes times).columns =
      batch.columns.modify (batch.columns.length - 1)
        (·.appendEach Column.appendInteger times) := by
  induction times generalizing batch with
  | nil => exact (List.modify_id _ _).symm
  | cons time rest ih =>
    have step := ih (batch.appendTime time)
    have last : (batch.appendTime time).columns =
        batch.columns.modify (batch.columns.length - 1) (·.appendInteger time) := rfl
    rw [last, List.length_modify, List.modify_modify_eq] at step
    exact step

theorem columnAt_appendTimes (times : List Int64) (batch : Batch) {index : Nat}
    (earlier : index + 1 < batch.columns.length) :
    (batch.appendTimes times).columnAt index = batch.columnAt index := by
  rw [columnAt, columnAt, columns_appendTimes, List.getElem?_modify_ne]
  omega

theorem lastColumn_appendTimes (times : List Int64) {batch : Batch} {index : Nat}
    (last : index + 1 = batch.columns.length) :
    (batch.appendTimes times).columnAt index =
      (batch.columnAt index).appendEach Column.appendInteger times := by
  have position : batch.columns.length - 1 = index := by omega
  have inside : index < batch.columns.length := by omega
  rw [columnAt, columnAt, columns_appendTimes, position, List.getElem?_modify_eq,
    List.getElem?_eq_getElem inside]
  rfl

theorem columns_pos_of_rows (someRows : batch.rowCount ≠ 0) : 0 < batch.columns.length := by
  cases columns : batch.columns with
  | cons column rest => exact Nat.succ_pos _
  | nil =>
    rw [rowCount, columns] at someRows
    exact absurd rfl someRows

/-! ## Columns that fit together -/

theorem columnMismatch?_eq_none_iff (batch : Batch) (index : Nat) :
    batch.columnMismatch? index = none ↔
      (batch.columnAt index).rowCount = batch.rowCount ∧
        (batch.columnAt index).layoutError? (batch.fieldAt index).type = none := by
  rw [columnMismatch?]
  split
  next differ => simp [differ]
  next same => simp [not_not.mp same]

theorem mismatch?_eq_none_iff (batch : Batch) :
    batch.mismatch? = none ↔
      batch.columns.length = batch.schema.length ∧
        (batch.columnAt (batch.columns.length - 1)).nullCount = 0 ∧
        ∀ index < batch.columns.length,
          (batch.columnAt index).rowCount = batch.rowCount ∧
            (batch.columnAt index).layoutError? (batch.fieldAt index).type = none := by
  rw [mismatch?]
  split
  next differ => simp [differ]
  next same =>
    split
    next nulls => simp [nulls]
    next noNulls =>
      simp only [List.findSome?_eq_none_iff, List.mem_range, columnMismatch?_eq_none_iff,
        eq_true (not_not.mp same), eq_true (not_not.mp noNulls), true_and]

/-- Where the columns fit together, each row has a timestamp, unless the last column has values of
another width. -/
theorem length_times_of_matching (someRows : batch.rowCount ≠ 0)
    (matching : batch.mismatch? = none)
    (timeStorage : (batch.fieldAt (batch.schema.length - 1)).type.storage = .packed 8) :
    batch.rowCount.toInt = batch.times.length := by
  obtain ⟨fields, noNulls, columns⟩ := batch.mismatch?_eq_none_iff.mp matching
  have last : batch.columns.length - 1 < batch.columns.length :=
    Nat.sub_lt (columns_pos_of_rows someRows) Nat.one_pos
  have fit := ((Column.layoutError?_eq_none_iff _ _).mp (columns _ last).2).2
  rw [fields, timeStorage, ← fields] at fit
  have count := Column.length_integers fit
  rw [noNulls, Int32.toInt_zero] at count
  rw [times_eq_integers, rowCount_eq_columnAt]
  omega

end Batch

namespace Sorter

/-! ## Columns without storage -/

section Absent

variable {type : ValueType} (absent : type.storage = .absent) (source target : Column)
  (nulls : NullIndex)
include absent

theorem appendRows_absent (first last : Int) :
    source.appendRows type first last nulls target = .error ⟨type⟩ := by
  rw [Column.appendRows, absent]

/-- A column of a type without storage cannot be merged, once there are rows. -/
theorem mergeColumn_absent {times : List Int64} (order : TimeOrder) (nonempty : 0 < times.length) :
    mergeColumn (order.rebuild times) source type nulls target = .error ⟨type⟩ := by
  have tiles := TimeOrder.tiles_rebuild times order
  have total := TimeOrder.length_sortedRows times
  rw [mergeColumn]
  generalize (order.rebuild times).rowRanges = ranges at tiles
  generalize TimeOrder.sortedRows times = rows at tiles total
  cases tiles with
  | nil =>
    rw [List.length_nil] at total
    omega
  | @cons _ first count ranges rest someRows distinct tiles =>
    -- No timestamp comes before the first range, so its rows are appended.
    have starts : ¬(order.rebuild times).repeatsTime 0 = true := by
      rw [TimeOrder.repeatsTime_zero]
      exact Bool.false_ne_true
    have hasRows : first < first + count := by omega
    rw [List.foldlM_cons, addRun, if_neg starts, appendRange, if_pos hasRows,
      appendRows_absent absent source target]
    rfl

end Absent

variable {batch : Batch} {built : Nat → Column → Prop}

/-! ## Building the columns -/

/-- The column at a position merges into one with a property, whatever the null index held. -/
def Merges (batch : Batch) (order : TimeOrder) (built : Nat → Column → Prop) (index : Nat) :
    Prop :=
  ∀ nulls : NullIndex, ∃ merged,
    mergeColumn order (batch.columnAt index) (batch.fieldAt index).type
        (nulls.rebuild (batch.columnAt index) (order.times.length + 1)) .empty = .ok merged ∧
      built index merged

theorem columnAt_set {index : Nat} (column : Column) (inside : index < batch.columns.length)
    (other : Nat) :
    ({ batch with columns := batch.columns.set index column } : Batch).columnAt other =
      if other = index then column else batch.columnAt other := by
  rw [Batch.columnAt, Batch.columnAt, List.getElem?_set]
  by_cases same : index = other
  · rw [if_pos same, if_pos inside, if_pos same.symm]
    rfl
  · rw [if_neg same, if_neg (Ne.symm same)]

/-- Building columns leaves the time order as it is. -/
theorem order_mergeColumns (batch : Batch) (index count : Nat) (sorter : Sorter) :
    (mergeColumns batch index count sorter).1.order = sorter.order := by
  induction count generalizing index sorter with
  | zero => rfl
  | succ count ih =>
    rw [mergeColumns]
    split
    next => rfl
    next => exact ih _ _

/-- Columns that merge are built, each in its own place. -/
theorem mergeColumns_ok {index count : Nat} {sorter : Sorter}
    (schemaEq : sorter.scratch.schema = batch.schema)
    (merges : ∀ place, index ≤ place → place < index + count →
      Merges batch sorter.order built place)
    (fresh : ∀ place, index ≤ place → sorter.scratch.columnAt place = .empty)
    (room : index + count ≤ sorter.scratch.columns.length) :
    ∃ nulls scratch,
      mergeColumns batch index count sorter = (⟨sorter.order, nulls, scratch⟩, none) ∧
      scratch.schema = batch.schema ∧
      scratch.columns.length = sorter.scratch.columns.length ∧
      (∀ place, index ≤ place → place < index + count → built place (scratch.columnAt place)) ∧
      ∀ place, place < index ∨ index + count ≤ place →
        scratch.columnAt place = sorter.scratch.columnAt place := by
  induction count generalizing index sorter with
  | zero =>
    refine ⟨sorter.nulls, sorter.scratch, rfl, schemaEq, rfl, ?_, fun _ _ => rfl⟩
    intro place behind before
    omega
  | succ count ih =>
    obtain ⟨merged, mergedEq, mergedBuilt⟩ :=
      merges index (Nat.le_refl _) (by omega) sorter.nulls
    have fieldEq := Batch.fieldAt_congr schemaEq index
    have inside : index < sorter.scratch.columns.length := by omega
    have columnSet := columnAt_set merged inside
    rw [mergeColumns, fieldEq, fresh index (Nat.le_refl _), mergedEq]
    let later : Sorter := ⟨sorter.order,
      sorter.nulls.rebuild (batch.columnAt index) (sorter.order.times.length + 1),
      { sorter.scratch with columns := sorter.scratch.columns.set index merged }⟩
    have laterSchema : later.scratch.schema = batch.schema := schemaEq
    have laterMerges : ∀ place, index + 1 ≤ place → place < index + 1 + count →
        Merges batch later.order built place := by
      intro place behind before
      exact merges place (by omega) (by omega)
    have laterFresh : ∀ place, index + 1 ≤ place → later.scratch.columnAt place = .empty := by
      intro place behind
      rw [columnSet, if_neg (by omega)]
      exact fresh place (by omega)
    have laterRoom : index + 1 + count ≤ later.scratch.columns.length := by
      rw [List.length_set]
      omega
    obtain ⟨nulls, scratch, builtEq, scratchSchema, lengthEq, columns, kept⟩ :=
      ih laterSchema laterMerges laterFresh laterRoom
    refine ⟨nulls, scratch, builtEq, scratchSchema, ?_, ?_, ?_⟩
    · rw [lengthEq, List.length_set]
    · intro place behind before
      by_cases first : place = index
      · rw [kept place (by omega), columnSet, if_pos first, first]
        exact mergedBuilt
      · exact columns place (by omega) (by omega)
    · intro place outside
      rw [kept place (by omega), columnSet, if_neg (by omega)]

theorem prepare_columnAt (batch : Batch) (sorter : Sorter) (index : Nat) :
    (sorter.prepare batch).scratch.columnAt index = .empty := by
  rw [prepare, Batch.resetTo_eq_ofSchema, Batch.columnAt_ofSchema]

/-! ## Sorting -/

/-- The columns but the last have a property, and the last has no rows yet. -/
structure Built (batch : Batch) (built : Nat → Column → Prop) (scratch : Batch) : Prop where
  schema_eq : scratch.schema = batch.schema
  columns_length : scratch.columns.length = batch.columns.length
  columns : ∀ index, index + 1 < batch.columns.length → built index (scratch.columnAt index)
  last : ∀ index, index + 1 = batch.columns.length → scratch.columnAt index = .empty

/-- A sort succeeds if all columns merge, and its result has what they merged into. -/
theorem sort_of_merges (sorter : Sorter) (someRows : batch.rowCount ≠ 0)
    (matching : batch.mismatch? = none)
    (merges : ∀ index, index + 1 < batch.columns.length →
      Merges batch (sorter.order.rebuild batch.times) built index) :
    ∃ nulls scratch, Built batch built scratch ∧
      sorter.sort batch =
        ⟨⟨sorter.order.rebuild batch.times, nulls, batch⟩,
          scratch.appendTimes (sorter.order.rebuild batch.times).distinctTimes, none, []⟩ := by
  have fields := ((Batch.mismatch?_eq_none_iff batch).mp matching).1
  have someColumns := Batch.columns_pos_of_rows someRows
  have schemaEq : (sorter.prepare batch).scratch.schema = batch.schema := by
    rw [prepare, Batch.resetTo_eq_ofSchema, Batch.ofSchema]
  have lengthEq : (sorter.prepare batch).scratch.columns.length = batch.columns.length := by
    rw [prepare, Batch.resetTo_eq_ofSchema, Batch.ofSchema, List.length_replicate, fields]
  have prepared : ∀ index, 0 ≤ index → index < 0 + (batch.schema.length - 1) →
      Merges batch (sorter.prepare batch).order built index := by
    intro index _ before
    exact merges index (by omega)
  have room : 0 + (batch.schema.length - 1) ≤ (sorter.prepare batch).scratch.columns.length := by
    omega
  obtain ⟨nulls, scratch, builtEq, builtSchema, builtLength, columns, kept⟩ :=
    mergeColumns_ok schemaEq prepared (fun index _ => prepare_columnAt batch sorter index) room
  refine ⟨nulls, scratch, ?_, ?_⟩
  · exact {
      schema_eq := builtSchema
      columns_length := builtLength.trans lengthEq
      columns := by
        intro index earlier
        exact columns index (Nat.zero_le _) (by omega)
      last := by
        intro index last
        rw [kept index (by omega)]
        exact prepare_columnAt batch sorter index }
  · rw [sort, if_neg someRows, matching, builtEq]
    rfl

namespace Built

variable {scratch : Batch}

theorem schema_appendTimes (builtBatch : Built batch built scratch) (times : List Int64) :
    (scratch.appendTimes times).schema = batch.schema := by
  rw [Batch.schema_appendTimes, builtBatch.schema_eq]

theorem length_columns (builtBatch : Built batch built scratch) (times : List Int64) :
    (scratch.appendTimes times).columns.length = batch.columns.length := by
  rw [Batch.columns_appendTimes, List.length_modify, builtBatch.columns_length]

theorem columnAt_earlier (builtBatch : Built batch built scratch) (times : List Int64)
    {index : Nat} (earlier : index + 1 < batch.columns.length) :
    (scratch.appendTimes times).columnAt index = scratch.columnAt index := by
  rw [← builtBatch.columns_length] at earlier
  exact Batch.columnAt_appendTimes times scratch earlier

theorem columnAt_last (builtBatch : Built batch built scratch) (times : List Int64)
    {index : Nat} (last : index + 1 = batch.columns.length) :
    (scratch.appendTimes times).columnAt index =
      Column.empty.appendEach Column.appendInteger times := by
  have scratchLast := last
  rw [← builtBatch.columns_length] at scratchLast
  rw [Batch.lastColumn_appendTimes times scratchLast, builtBatch.last index last]

end Built

end Sorter

end Columnar
