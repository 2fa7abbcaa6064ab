import Columnar.Batch.Basic
import Columnar.Column.Slice
import Columnar.Column.Layout
import Columnar.Log
import Columnar.TimeOrder

/-!
# Sorting batches by time

Sorting a batch orders its rows by their timestamps and leaves one row for each timestamp.  Where
rows share a timestamp, each column keeps, on its own, the value of the last of these rows that
has one.

The result is built column by column: each run of the time order is copied as one block.  When a
run starts with the timestamp that the run before it ended with, its first row is merged into the
last row of the result, which a present value replaces and a null leaves alone.

A sorter keeps its time order, its null index and the batch that the last sort replaced, whose
place the next result takes.  None of them reaches a later result.
-/

namespace Columnar

/-- Why the columns of a batch cannot be sorted together. -/
inductive Mismatch where
  /-- The numbers of fields and columns differ. -/
  | columnCount (fields columns : Nat)
  /-- The time column counts nulls. -/
  | timeNulls
  /-- A column has not as many rows as the time column. -/
  | rowCount (index : Nat) (rows timeRows : Int32)
  /-- A column contradicts itself. -/
  | layout (index : Nat) (cause : LayoutError)
deriving DecidableEq, Repr

/-- The wording of a mismatch. -/
def Mismatch.message : Mismatch → Bytes
  | .columnCount fields columns => Bytes.ofString s!"{fields} fields but {columns} columns"
  | .timeNulls => Bytes.ofString "null in time column"
  | .rowCount index rows timeRows =>
      Bytes.ofString s!"column {index} has {rows.toInt} rows, time has {timeRows.toInt}"
  | .layout index cause => Bytes.within (Bytes.ofString s!"column {index}") cause.message

/-- Why a batch cannot be sorted. -/
inductive SortError where
  | mismatch (cause : Mismatch)
  | unsupported (cause : UnsupportedType)
deriving DecidableEq, Repr

/-- The wording of a batch that cannot be sorted. -/
def SortError.message : SortError → Bytes
  | .mismatch cause => Bytes.within (Bytes.ofString "cannot sort record") cause.message
  | .unsupported cause => cause.message

/-- The message that reports a mismatch. -/
def Mismatch.entry (cause : Mismatch) : Log.Entry where
  level := .error
  message :=
    Bytes.ofString "msg=\"cannot sort record\" err=\"" ++ cause.message ++ Bytes.ofString "\""

namespace Batch

/-- What keeps the column at a position from being sorted with the others. -/
def columnMismatch? (batch : Batch) (index : Nat) : Option Mismatch :=
  let column := batch.columnAt index
  if column.rowCount ≠ batch.rowCount then
    some (.rowCount index column.rowCount batch.rowCount)
  else
    (column.layoutError? (batch.fieldAt index).type).map (.layout index)

/-- The first thing that keeps the columns from being sorted together. -/
def mismatch? (batch : Batch) : Option Mismatch :=
  if batch.columns.length ≠ batch.schema.length then
    some (.columnCount batch.schema.length batch.columns.length)
  else if (batch.columnAt (batch.columns.length - 1)).nullCount ≠ 0 then
    some .timeNulls
  else
    (List.range batch.columns.length).findSome? batch.columnMismatch?

/-- A batch of the given fields without rows, in place of an earlier one. -/
def resetTo (schema : Schema) (batch : Batch) : Batch :=
  ⟨schema, (resize .empty schema.length batch.columns).map fun _ => .empty⟩

@[simp] theorem resetTo_eq_ofSchema (schema : Schema) (batch : Batch) :
    batch.resetTo schema = ofSchema schema := by
  simp [resetTo, ofSchema, List.map_const']

end Batch

/-- What is kept between sorts. -/
structure Sorter where
  order : TimeOrder
  nulls : NullIndex
  /-- The batch in which the next result is built. -/
  scratch : Batch
deriving DecidableEq, Repr

namespace Sorter

/-- A sorter that has not sorted anything. -/
def empty : Sorter :=
  ⟨.empty, .empty, .empty⟩

/-- Replaces the last row of the target by a row of the source, unless that one is null. -/
def mergeRow (source : Column) (type : ValueType) (nulls : NullIndex) (row : Nat)
    (target : Column) : Except UnsupportedType Column :=
  if source.isNull row then
    .ok target
  else
    match target.removeLast type with
    | .error cause => .error cause
    | .ok shorter => source.appendRows type row (row + 1) nulls shorter

/-- Appends a range of rows of the source to the target, unless it is empty. -/
def appendRange (source : Column) (type : ValueType) (nulls : NullIndex) (firstRow endRow : Nat)
    (target : Column) : Except UnsupportedType Column :=
  if firstRow < endRow then source.appendRows type firstRow endRow nulls target else .ok target

/-- Adds the rows of a run to the target. Where the run repeats the timestamp before it, its
first row is merged into the last row of the target. -/
def addRun (order : TimeOrder) (source : Column) (type : ValueType) (nulls : NullIndex)
    (target : Column) (range : RowRange) : Except UnsupportedType Column :=
  if order.repeatsTime range.position then
    match mergeRow source type nulls range.firstRow target with
    | .error cause => .error cause
    | .ok merged => appendRange source type nulls (range.firstRow + 1) range.endRow merged
  else
    appendRange source type nulls range.firstRow range.endRow target

/-- Adds the rows of all runs to the target. -/
def mergeColumn (order : TimeOrder) (source : Column) (type : ValueType) (nulls : NullIndex)
    (target : Column) : Except UnsupportedType Column :=
  order.rowRanges.foldlM (addRun order source type nulls) target

/-- Builds `count` columns of the result, the first of them at `index`, up to the first one
whose type has no storage. -/
def mergeColumns (batch : Batch) : (index count : Nat) → Sorter → Sorter × Option UnsupportedType
  | _, 0, sorter => (sorter, none)
  | index, count + 1, sorter =>
    let source := batch.columnAt index
    let nulls := sorter.nulls.rebuild source (sorter.order.times.length + 1)
    let type := (sorter.scratch.fieldAt index).type
    match mergeColumn sorter.order source type nulls (sorter.scratch.columnAt index) with
    | .error cause => ({ sorter with nulls := nulls }, some cause)
    | .ok merged =>
      let scratch := { sorter.scratch with columns := sorter.scratch.columns.set index merged }
      mergeColumns batch (index + 1) count ⟨sorter.order, nulls, scratch⟩

/-- What a sort leaves: what is kept for the next sort, the batch, an error if there is one, and
the messages on the way. -/
structure Outcome (Kept : Type) where
  sorter : Kept
  batch : Batch
  error? : Option SortError
  log : List Log.Entry
deriving DecidableEq, Repr

/-- The sorter prepared for a batch: the time order of its rows, and a scratch batch of its
fields without rows. -/
def prepare (batch : Batch) (sorter : Sorter) : Sorter :=
  { sorter with
    order := sorter.order.rebuild batch.times
    scratch := sorter.scratch.resetTo batch.schema }

/-- Sorts a batch by time. A batch without rows is left as it is, and so is one that cannot be
sorted. Of a batch with rows but without timestamps no row is left; a guarded sort stops there. -/
def sort (batch : Batch) (sorter : Sorter) : Outcome Sorter :=
  if batch.rowCount = 0 then
    ⟨sorter, batch, none, []⟩
  else
    match batch.mismatch? with
    | some cause => ⟨sorter, batch, some (.mismatch cause), [cause.entry]⟩
    | none =>
      match mergeColumns batch 0 (batch.schema.length - 1) (sorter.prepare batch) with
      | (built, some cause) => ⟨built, batch, some (.unsupported cause), []⟩
      | (built, none) =>
        ⟨{ built with scratch := batch }, built.scratch.appendTimes built.order.distinctTimes,
          none, []⟩

end Sorter

end Columnar
