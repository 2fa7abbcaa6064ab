import Columnar.Proofs.Sorter.Guarded

/-!
# Batches that are refused

A sort fails in two ways.  Columns that do not fit together are found before anything is built.  A
type without storage is found only when rows of its column are appended, so a column of nulls in
such a type passes the first test and stops the sort half way.  Nothing else fails: what is
appended, merged or removed while columns of the other types are built always can be.

`Batch.Unsortable` lists the reasons.  `sort?_refused_iff` says that they are all for a batch whose
null counts are exact and whose columns are of bounded size, and that the batch is given back as it
was in either case.
-/

namespace Columnar

/-! ## Single steps -/

namespace Column

variable {type : ValueType} (source target : Column)

theorem exists_appendRows (kept : type.storage ≠ .absent) (first last : Int)
    (nulls : NullIndex) :
    ∃ longer, source.appendRows type first last nulls target = .ok longer := by
  rw [appendRows]
  split
  next absent => exact absurd absent kept
  next =>
    split
    · exact ⟨_, rfl⟩
    · split
      · exact ⟨_, rfl⟩
      · exact ⟨_, rfl⟩

theorem exists_removeLast (kept : type.storage ≠ .absent) :
    ∃ shorter, target.removeLast type = .ok shorter := by
  rw [removeLast]
  split
  next absent => exact absurd absent kept
  next => exact ⟨_, rfl⟩

end Column

namespace Sorter

section Column

variable {type : ValueType} (source target : Column) (nulls : NullIndex)

theorem exists_appendRange (kept : type.storage ≠ .absent) (firstRow endRow : Nat) :
    ∃ longer, appendRange source type nulls firstRow endRow target = .ok longer := by
  rw [appendRange]
  split
  next => exact source.exists_appendRows target kept _ _ nulls
  next => exact ⟨target, rfl⟩

theorem exists_mergeRow (kept : type.storage ≠ .absent) (row : Nat) :
    ∃ merged, mergeRow source type nulls row target = .ok merged := by
  rw [mergeRow]
  split
  next => exact ⟨target, rfl⟩
  next =>
    obtain ⟨shorter, shorterEq⟩ := target.exists_removeLast kept
    rw [shorterEq]
    exact source.exists_appendRows shorter kept _ _ nulls

theorem exists_addRun (order : TimeOrder) (kept : type.storage ≠ .absent) (range : RowRange) :
    ∃ longer, addRun order source type nulls target range = .ok longer := by
  rw [addRun]
  split
  next =>
    obtain ⟨merged, mergedEq⟩ := exists_mergeRow source target nulls kept range.firstRow
    rw [mergedEq]
    exact exists_appendRange source merged nulls kept _ _
  next => exact exists_appendRange source target nulls kept _ _

/-! ## Single columns -/

private theorem exists_foldlM_addRun (order : TimeOrder) (kept : type.storage ≠ .absent)
    (ranges : List RowRange) :
    ∃ merged, ranges.foldlM (addRun order source type nulls) target = .ok merged := by
  induction ranges generalizing target with
  | nil => exact ⟨target, rfl⟩
  | cons range ranges ih =>
    obtain ⟨longer, longerEq⟩ := exists_addRun source target nulls order kept range
    rw [List.foldlM_cons, longerEq]
    exact ih longer

/-- A column of a type with storage can be merged, in whatever order. -/
theorem exists_mergeColumn (order : TimeOrder) (kept : type.storage ≠ .absent) :
    ∃ merged, mergeColumn order source type nulls target = .ok merged :=
  exists_foldlM_addRun source target nulls order kept order.rowRanges

end Column

/-! ## All columns -/

/-- One column of a type without storage stops the sort. -/
theorem mergeColumns_absent {times : List Int64} {order : TimeOrder} {batch : Batch}
    (nonempty : 0 < times.length) {index count place : Nat} {sorter : Sorter}
    (orderEq : sorter.order = order.rebuild times)
    (schemaEq : sorter.scratch.schema = batch.schema)
    (behind : index ≤ place) (before : place < index + count)
    (absent : (batch.fieldAt place).type.storage = .absent) :
    ∃ cause, (mergeColumns batch index count sorter).2 = some cause := by
  induction count generalizing index sorter with
  | zero => omega
  | succ count ih =>
    have fieldEq := Batch.fieldAt_congr schemaEq index
    rw [mergeColumns, fieldEq, orderEq]
    cases merged_eq : mergeColumn (order.rebuild times) (batch.columnAt index)
        (batch.fieldAt index).type
        (sorter.nulls.rebuild (batch.columnAt index) ((order.rebuild times).times.length + 1))
        (sorter.scratch.columnAt index) with
    -- An earlier column without storage may stop the sort before `place` is reached.
    | error cause => exact ⟨cause, rfl⟩
    | ok merged =>
      have later : index ≠ place := by
        rintro rfl
        rw [mergeColumn_absent absent _ _ _ order nonempty] at merged_eq
        cases merged_eq
      apply ih
      · rfl
      · exact schemaEq
      · omega
      · omega

end Sorter

namespace Batch

variable {batch : Batch}

/-- What keeps a batch from being sorted. -/
inductive Unsortable (batch : Batch) : Prop where
  /-- The numbers of fields and columns differ. -/
  | columnCount (differ : batch.columns.length ≠ batch.schema.length)
  /-- The last column counts nulls. -/
  | timeNulls (someNulls : (batch.columnAt (batch.columns.length - 1)).nullCount ≠ 0)
  /-- A column has not as many rows as the batch. -/
  | rowCount (index : Nat) (inside : index < batch.columns.length)
    (differ : (batch.columnAt index).rowCount ≠ batch.rowCount)
  /-- A column contradicts itself or the type of its field. -/
  | layout (index : Nat) (inside : index < batch.columns.length)
    (found : (batch.columnAt index).layoutError? (batch.fieldAt index).type ≠ none)
  /-- A column but the last has a type without storage. -/
  | unstored (index : Nat) (earlier : index + 1 < batch.columns.length)
    (unknown : (batch.fieldAt index).type ∉
      [ValueType.integer, .float, .boolean, .string, .tag])

theorem unsortable_iff (batch : Batch) :
    batch.Unsortable ↔ batch.mismatch? ≠ none ∨
      ∃ index, index + 1 < batch.columns.length ∧
        (batch.fieldAt index).type.storage = .absent := by
  rw [Ne, mismatch?_eq_none_iff]
  constructor
  · intro unsortable
    cases unsortable with
    | columnCount differ => exact Or.inl fun ⟨same, _, _⟩ => differ same
    | timeNulls someNulls => exact Or.inl fun ⟨_, noNulls, _⟩ => someNulls noNulls
    | rowCount index inside differ =>
      exact Or.inl fun ⟨_, _, columns⟩ => differ (columns index inside).1
    | layout index inside found =>
      exact Or.inl fun ⟨_, _, columns⟩ => found (columns index inside).2
    | unstored index earlier unknown =>
      exact Or.inr ⟨index, earlier, (ValueType.storage_eq_absent_iff _).mpr unknown⟩
  · rintro (mismatched | ⟨index, earlier, absent⟩)
    · by_contra sortable
      apply mismatched
      refine ⟨?_, ?_, ?_⟩
      · by_contra differ
        exact sortable (.columnCount differ)
      · by_contra someNulls
        exact sortable (.timeNulls someNulls)
      · intro index inside
        constructor
        · by_contra differ
          exact sortable (.rowCount index inside differ)
        · by_contra found
          exact sortable (.layout index inside found)
    · exact .unstored index earlier ((ValueType.storage_eq_absent_iff _).mp absent)

end Batch

namespace Sorter

variable {batch : Batch}

/-- A batch that is sorted has columns that fit together. -/
theorem matching_of_sorted (sorter : Sorter) (someRows : batch.rowCount ≠ 0)
    (sorted : (sorter.sort batch).error? = none) : batch.mismatch? = none := by
  rw [sort, if_neg someRows] at sorted
  cases mismatch : batch.mismatch? with
  | none => rfl
  | some cause =>
    rw [mismatch] at sorted
    cases sorted

/-- A batch with timestamps is sorted only if all columns but the last have storage. -/
theorem kept_of_sorted (sorter : Sorter) (someRows : batch.rowCount ≠ 0)
    (matching : batch.mismatch? = none) (someTimes : 0 < batch.times.length)
    (sorted : (sorter.sort batch).error? = none) {index : Nat}
    (earlier : index + 1 < batch.columns.length) :
    (batch.fieldAt index).type.storage ≠ .absent := by
  intro absent
  have fields := (batch.mismatch?_eq_none_iff.mp matching).1
  have schemaEq : (sorter.prepare batch).scratch.schema = batch.schema := by
    rw [prepare, Batch.resetTo_eq_ofSchema, Batch.ofSchema]
  have orderEq : (sorter.prepare batch).order = sorter.order.rebuild batch.times := rfl
  have before : index < 0 + (batch.schema.length - 1) := by omega
  obtain ⟨cause, causeEq⟩ :=
    mergeColumns_absent someTimes orderEq schemaEq (Nat.zero_le index) before absent
  rw [sort, if_neg someRows, matching] at sorted
  generalize mergeColumns batch 0 (batch.schema.length - 1) (sorter.prepare batch) = result
    at sorted causeEq
  obtain ⟨built, error?⟩ := result
  obtain rfl : error? = some cause := causeEq
  cases sorted

/-- Where all columns but the last have storage they are built, whatever the timestamps are. -/
theorem sort_of_kept (sorter : Sorter) (someRows : batch.rowCount ≠ 0)
    (matching : batch.mismatch? = none)
    (kept : ∀ index, index + 1 < batch.columns.length →
      (batch.fieldAt index).type.storage ≠ .absent) :
    ∃ nulls scratch, Built batch (fun _ _ => True) scratch ∧
      sorter.sort batch =
        ⟨⟨sorter.order.rebuild batch.times, nulls, batch⟩,
          scratch.appendTimes (sorter.order.rebuild batch.times).distinctTimes, none, []⟩ := by
  apply sort_of_merges sorter someRows matching
  intro index earlier nulls
  obtain ⟨merged, mergedEq⟩ := exists_mergeColumn (batch.columnAt index) .empty
    (nulls.rebuild (batch.columnAt index)
      ((sorter.order.rebuild batch.times).times.length + 1))
    (sorter.order.rebuild batch.times) (kept index earlier)
  exact ⟨merged, mergedEq, trivial⟩

/-- A batch whose columns fit together is sorted exactly if all columns but the last have
storage. -/
theorem sort_error?_eq_none_iff (sorter : Sorter) (someRows : batch.rowCount ≠ 0)
    (matching : batch.mismatch? = none)
    (timeType : (batch.fieldAt (batch.schema.length - 1)).type = .integer) :
    (sorter.sort batch).error? = none ↔
      ∀ index, index + 1 < batch.columns.length →
        (batch.fieldAt index).type.storage ≠ .absent := by
  constructor
  · intro sorted index earlier
    have rows := Batch.length_times_of_matching someRows matching
      (congrArg ValueType.storage timeType)
    have someTimes : 0 < batch.times.length := by
      have different := mt Column.toInt_eq_zero_iff.mp someRows
      omega
    exact kept_of_sorted sorter someRows matching someTimes sorted earlier
  · intro kept
    obtain ⟨nulls, scratch, -, sortEq⟩ := sort_of_kept sorter someRows matching kept
    rw [sortEq]

/-- A failed sort gives the batch back as it was. -/
theorem sort_batch_of_error (sorter : Sorter)
    (failed : (sorter.sort batch).error? ≠ none) : (sorter.sort batch).batch = batch := by
  rw [sort] at failed ⊢
  split at failed
  next noRows => exact absurd rfl failed
  next someRows =>
    rw [if_neg someRows]
    cases mismatch : batch.mismatch? with
    | some cause => rfl
    | none =>
      rw [mismatch] at failed
      generalize mergeColumns batch 0 (batch.schema.length - 1) (sorter.prepare batch) = result
        at failed ⊢
      obtain ⟨built, error?⟩ := result
      cases error? with
      | some cause => rfl
      | none => exact absurd rfl failed

theorem sort_of_no_rows (sorter : Sorter) (noRows : batch.rowCount = 0) :
    sorter.sort batch = ⟨sorter, batch, none, []⟩ := by
  rw [sort, if_pos noRows]

theorem sort_of_mismatch (sorter : Sorter) {cause : Mismatch} (someRows : batch.rowCount ≠ 0)
    (mismatch : batch.mismatch? = some cause) :
    sorter.sort batch = ⟨sorter, batch, some (.mismatch cause), [cause.entry]⟩ := by
  rw [sort, if_neg someRows, mismatch]

/-- A plain sort fails exactly if the batch has rows and cannot be sorted. -/
theorem error?_ne_none_iff (sorter : Sorter)
    (lastType : batch.rowCount ≠ 0 → batch.mismatch? = none →
      (batch.fieldAt (batch.schema.length - 1)).type = .integer) :
    (sorter.sort batch).error? ≠ none ↔ batch.rowCount ≠ 0 ∧ batch.Unsortable := by
  rw [batch.unsortable_iff]
  by_cases noRows : batch.rowCount = 0
  · rw [sort_of_no_rows sorter noRows]
    simp [noRows]
  · cases mismatch : batch.mismatch? with
    | some cause =>
      rw [sort_of_mismatch sorter noRows mismatch]
      simp [noRows]
    | none =>
      rw [Ne, sort_error?_eq_none_iff sorter noRows mismatch (lastType noRows mismatch)]
      simp [noRows]

/-- Two rows that fit together, with nulls of a type without storage. -/
def unsignedNulls : Batch where
  schema := [⟨[117], .unsigned⟩, ⟨Field.timeName, .integer⟩]
  columns := [
    Column.empty.appendNulls 2,
    Column.empty.appendEach Column.appendInteger [2, 1]]

end Sorter

namespace SorterBuffers

variable {batch : Batch}

/-- The sort of a counted batch has an outcome.  It is an error exactly if the batch has rows and
cannot be sorted, and the batch stays as it was when the sort fails and when there are no rows. -/
theorem sort?_refused_iff (counted : batch.Counted) (buffers : SorterBuffers) :
    ∃ outcome, buffers.sort? batch = some outcome ∧
      (outcome.error? ≠ none ↔ batch.rowCount ≠ 0 ∧ batch.Unsortable) ∧
      (outcome.error? ≠ none → outcome.batch = batch) ∧
      (batch.rowCount = 0 → outcome.batch = batch) := by
  obtain ⟨kept, sorted, -⟩ := sort?_of_counted counted buffers .empty
  refine ⟨_, sorted, Sorter.error?_ne_none_iff _ counted.last_type,
    Sorter.sort_batch_of_error _, ?_⟩
  intro noRows
  exact congrArg Sorter.Outcome.batch (Sorter.sort_of_no_rows _ noRows)

theorem sort?_unsignedNulls :
    Sorter.unsignedNulls.Counted ∧ Sorter.unsignedNulls.mismatch? = none ∧
      ∃ outcome, empty.sort? Sorter.unsignedNulls = some outcome ∧ outcome.error? ≠ none ∧
        outcome.batch = Sorter.unsignedNulls := by
  have counted : Sorter.unsignedNulls.Counted := by decide +kernel
  have someRows : Sorter.unsignedNulls.rowCount ≠ 0 := by decide +kernel
  have unsortable : Sorter.unsignedNulls.Unsortable :=
    .unstored 0 (by decide) (by decide)
  obtain ⟨outcome, sorted, refusedIff, left, -⟩ := sort?_refused_iff counted empty
  have refused := refusedIff.mpr ⟨someRows, unsortable⟩
  exact ⟨counted, by decide +kernel, outcome, sorted, refused, left refused⟩

/-- Nothing keeps the batch from being sorted, yet its sort has no outcome. -/
theorem sort?_lateRows_of_sortable :
    (∀ field ∈ lateRows.schema.getLast?, field.type = .integer) ∧
      (∀ index < lateRows.columns.length,
        (lateRows.columnAt index).nullCount.toInt = (lateRows.columnAt index).clearRows) ∧
      lateRows.rowCount ≠ 0 ∧ ¬lateRows.Unsortable ∧ empty.sort? lateRows = none := by
  refine ⟨by decide, nullCount_lateRows, rowCount_lateRows, ?_, sort?_lateRows_eq_none empty⟩
  rw [Batch.unsortable_iff]
  rintro (mismatched | ⟨index, earlier, absent⟩)
  · exact mismatched mismatch?_lateRows
  · have columns : lateRows.columns.length = 2 := rfl
    obtain rfl : index = 0 := by omega
    exact absurd absent (by decide)

end SorterBuffers

end Columnar
