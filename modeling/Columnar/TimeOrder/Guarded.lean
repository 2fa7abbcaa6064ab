import Columnar.Bytes
import Columnar.Guarded
import Columnar.TimeOrder

/-!
# Guarded time orders

A time order is kept in buffers that serve one list of timestamps after the other.  A buffer is
resized, which keeps what it held, and then written entry by entry.  Rows and sort positions are
signed 32-bit words.  A guarded step stops where it must not go: at a number that is no word and at
an entry that a buffer does not have.

The runs are found in one walk over the sort positions, which carries the position at which the
current run started.
-/

namespace Columnar

/-- The buffers of a time order. -/
structure OrderBuffers where
  /-- The row at each sort position. -/
  rows : List Int32
  /-- The timestamp at each sort position. -/
  times : List Int64
  /-- The first and the last sort position of each run, one run behind the other. -/
  bounds : List Int32
  /-- Where the sorted timestamps are put together. -/
  spare : List Int64
deriving DecidableEq, Repr

namespace OrderBuffers

/-- The timestamp of a row, where the timestamps are listed by row. -/
def timeOf? (row : Int32) (buffers : OrderBuffers) : Option Int64 :=
  if 0 ≤ row then buffers.times[row.toInt.toNat]? else none

/-- The rows of the given timestamps in the order of their arrival, as `TimeOrder.start` lists
them. -/
def start? (times : List Int64) (buffers : OrderBuffers) : Option OrderBuffers := do
  let rows ← Guarded.fillFrom? (fun _ row => Guarded.length? row) 0 times.length
    (resize 0 times.length buffers.rows)
  return { buffers with rows := rows, times := times }

/-- Sorts the rows by their timestamps, as `TimeOrder.sort` does. The timestamps are put together
in the spare buffer, which changes places with the other one. -/
def sort? (buffers : OrderBuffers) : Option OrderBuffers :=
  if buffers.rows.all fun row => (buffers.timeOf? row).isSome then do
    let timeOf (row : Int32) : Int64 := (buffers.timeOf? row).getD 0
    let rows := buffers.rows.mergeSort fun first second => timeOf first ≤ timeOf second
    let times ← Guarded.fillFrom? (fun _ position => rows[position]?.bind buffers.timeOf?) 0
      rows.length (resize 0 rows.length buffers.spare)
    return { buffers with rows := rows, times := times, spare := buffers.times }
  else
    none

/-- Whether a run ends at a sort position that is not the last. -/
def parts? (position : Nat) (buffers : OrderBuffers) : Option Bool := do
  let row ← buffers.rows[position]?
  let nextRow ← buffers.rows[position + 1]?
  let distance ← Guarded.sub? nextRow row
  let time ← buffers.times[position]?
  let nextTime ← buffers.times[position + 1]?
  return distance ≠ 1 || time = nextTime

/-- The bounds of the runs from the one that starts at `first` on. The walk is at `position`, and
`count` sort positions follow. -/
def boundsFrom? (buffers : OrderBuffers) : (first position count : Nat) → Option (List Int32)
  | first, position, 0 => do
    return [← Guarded.length? first, ← Guarded.length? position]
  | first, position, count + 1 => do
    if ← buffers.parts? position then
      let start ← Guarded.length? first
      let stop ← Guarded.length? position
      return start :: stop :: (← buffers.boundsFrom? (position + 1) (position + 1) count)
    else
      buffers.boundsFrom? first (position + 1) count

/-- Splits the sorted rows into runs, as `TimeOrder.splitRuns` does. -/
def splitRuns? (buffers : OrderBuffers) : Option OrderBuffers := do
  let count ← Guarded.length? buffers.rows.length
  if count = 0 then
    return { buffers with bounds := [] }
  else
    return { buffers with bounds := ← buffers.boundsFrom? 0 0 (buffers.rows.length - 1) }

/-- The time order of the given timestamps in the same buffers, as `TimeOrder.rebuild` makes it. -/
def rebuild? (times : List Int64) (buffers : OrderBuffers) : Option OrderBuffers := do
  let started ← buffers.start? times
  let sorted ← started.sort?
  sorted.splitRuns?

/-- The row at a sort position, which has to be there. -/
def rowAt? (position : Int32) (buffers : OrderBuffers) : Option Int32 :=
  if 0 ≤ position then buffers.rows[position.toInt.toNat]? else none

/-- The rows of a run, as `TimeOrder.rowRange` says them. The places of its bounds in their list are
words, too. -/
def rowRange? (index : Nat) (buffers : OrderBuffers) : Option RowRange := do
  let place ← Guarded.product? (Guarded.length? index) (Guarded.length? 2)
  let behind ← Guarded.add? place 1
  let first ← buffers.bounds[place.toInt.toNat]?
  let last ← buffers.bounds[behind.toInt.toNat]?
  let firstRow ← buffers.rowAt? first
  let lastRow ← buffers.rowAt? last
  let endRow ← Guarded.add? lastRow 1
  return ⟨first.toInt.toNat, firstRow.toInt.toNat, endRow.toInt.toNat⟩

end OrderBuffers

end Columnar
