import Columnar.Column.Slice
import Columnar.Sorter
import Columnar.TimeOrder.Guarded

/-!
# Guarded sorting

A guarded sort works in the buffers that the sorts before it left, and is made of guarded steps.
It stops where one of them does: at a row, a sort position or a count that is no signed 32-bit
word, at an entry that a buffer does not have, and at the first of the timestamps if there is none.
Running into one of these is not the same as refusing a batch: a sort that stops has no outcome, a
sort that is refused has one with an error.

The number of columns is not guarded.
-/

namespace Columnar

/-- What is kept between guarded sorts. -/
structure SorterBuffers where
  order : OrderBuffers
  nulls : NullIndex
  /-- The batch in which the next result is built. -/
  scratch : Batch
deriving DecidableEq, Repr

namespace OrderBuffers

/-- Buffers that have not held a time order. -/
def empty : OrderBuffers :=
  ⟨[], [], [], []⟩

/-- Whether the timestamp at a sort position is the one before it again, as
`TimeOrder.repeatsTime` says it. -/
def repeatsTime? (position : Nat) (buffers : OrderBuffers) : Option Bool :=
  if 0 < position then do
    let time ← buffers.times[position]?
    let earlier ← buffers.times[position - 1]?
    return time = earlier
  else
    some false

end OrderBuffers

namespace SorterBuffers

open Sorter (Outcome)

/-- The buffers of a sorter that has not sorted anything. -/
def empty : SorterBuffers :=
  ⟨.empty, .empty, .empty⟩

/-- Goes on with the column that a step leaves, unless the step stops or fails. -/
def andThen? (next? : Column → Option (Except UnsupportedType Column)) :
    Option (Except UnsupportedType Column) → Option (Except UnsupportedType Column)
  | some (.ok column) => next? column
  | other => other

section Column

variable (source : Column) (type : ValueType) (nulls : NullIndex)

/-- Replaces the last row of the target by the row `row` of the source, of which `next` is the row
behind. -/
def replaceLast? (row next : Int32) (target : Column) : Option (Except UnsupportedType Column) :=
  andThen? (source.appendRows? type row.toInt next.toInt nulls) (target.removeLast? type)

/-- Replaces the last row of the target by a row of the source, as `Sorter.mergeRow` does. -/
def mergeRow? (row : Nat) (target : Column) : Option (Except UnsupportedType Column) := do
  let place ← Guarded.length? row
  let next ← Guarded.add? place 1
  let null ← source.isNull? place
  if null then some (.ok target) else replaceLast? source type nulls place next target

/-- Appends a range of rows of the source to the target, as `Sorter.appendRange` does. -/
def appendRange? (firstRow endRow : Nat) (target : Column) :
    Option (Except UnsupportedType Column) :=
  if firstRow < endRow then source.appendRows? type firstRow endRow nulls target
  else some (.ok target)

/-- Adds the rows of a run to the target, as `Sorter.addRun` does. -/
def addRun? (order : OrderBuffers) (target : Column) (range : RowRange) :
    Option (Except UnsupportedType Column) := do
  let repeats ← order.repeatsTime? range.position
  if repeats then
    andThen? (appendRange? source type nulls (range.firstRow + 1) range.endRow)
      (mergeRow? source type nulls range.firstRow target)
  else
    appendRange? source type nulls range.firstRow range.endRow target

/-- Adds the rows of `count` runs to the target, the first of them the run at `index`. -/
def addRuns? (order : OrderBuffers) : (index count : Nat) → Column →
    Option (Except UnsupportedType Column)
  | _, 0, target => some (.ok target)
  | index, count + 1, target => do
    let range ← order.rowRange? index
    andThen? (addRuns? order (index + 1) count) (addRun? source type nulls order target range)

/-- Adds the rows of all runs to the target, as `Sorter.mergeColumn` does. A run has two bounds. -/
def mergeColumn? (order : OrderBuffers) (target : Column) :
    Option (Except UnsupportedType Column) := do
  let count ← Guarded.length? (order.bounds.length / 2)
  addRuns? source type nulls order 0 count.toInt.toNat target

end Column

/-- Builds `count` columns of the result, the first of them at `index`, as `Sorter.mergeColumns`
does. -/
def mergeColumns? (batch : Batch) :
    (index count : Nat) → SorterBuffers → Option (SorterBuffers × Option UnsupportedType)
  | _, 0, buffers => some (buffers, none)
  | index, count + 1, buffers => do
    let source := batch.columnAt index
    let nulls ← buffers.nulls.rebuild? source (buffers.order.times.length + 1)
    let type := (buffers.scratch.fieldAt index).type
    let result ← mergeColumn? source type nulls buffers.order (buffers.scratch.columnAt index)
    match result with
    | .error cause => return ({ buffers with nulls := nulls }, some cause)
    | .ok merged =>
      let scratch := { buffers.scratch with columns := buffers.scratch.columns.set index merged }
      mergeColumns? batch (index + 1) count ⟨buffers.order, nulls, scratch⟩

/-- What a sort leaves when the columns but the last were built, or one of them could not be. The
first of the sorted timestamps is appended to the last column unseen, so it has to be there. -/
def finish? (batch : Batch) (error? : Option UnsupportedType) (built : SorterBuffers) :
    Option (Outcome SorterBuffers) :=
  match error? with
  | some cause => some ⟨built, batch, some (.unsupported cause), []⟩
  | none =>
    if built.order.times = [] then
      none
    else
      some ⟨{ built with scratch := batch },
        built.scratch.appendTimes (TimeOrder.withoutRepeats built.order.times), none, []⟩

/-- Sorts a batch by time, as `Sorter.sort` does. -/
def sort? (batch : Batch) (buffers : SorterBuffers) : Option (Outcome SorterBuffers) :=
  if batch.rowCount = 0 then
    some ⟨buffers, batch, none, []⟩
  else
    match batch.mismatch? with
    | some cause => some ⟨buffers, batch, some (.mismatch cause), [cause.entry]⟩
    | none => do
      let order ← buffers.order.rebuild? batch.times
      let prepared : SorterBuffers := ⟨order, buffers.nulls, buffers.scratch.resetTo batch.schema⟩
      let (built, error?) ← mergeColumns? batch 0 (batch.schema.length - 1) prepared
      built.finish? batch error?

/-- The buffers after batches were sorted in them, one after the other, whatever became of each. -/
def sortEach? (batches : List Batch) (buffers : SorterBuffers) : Option SorterBuffers :=
  batches.foldlM (fun buffers batch => (buffers.sort? batch).map Outcome.sorter) buffers

end SorterBuffers

end Columnar
