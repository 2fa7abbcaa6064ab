/-!
# Time order

The time order of a batch lists its rows by their timestamps; rows of one timestamp keep the order
in which they arrived.  The sorted rows fall into runs: inside a run each row is the successor of
the one before it and no timestamp occurs twice, so a run is a range of rows that can be copied as
one block.  Runs are as long as possible.
-/

namespace Columnar

/-- The sort positions of a run, both inclusive. -/
structure Run where
  first : Nat
  last : Nat
deriving DecidableEq, Repr

/-- The rows of a run: the sort position of its first row, that row, and the row behind its
last one. -/
structure RowRange where
  position : Nat
  firstRow : Nat
  endRow : Nat
deriving DecidableEq, Repr

/-- Rows in the order of their timestamps. -/
structure TimeOrder where
  /-- The row at each sort position. -/
  rows : List Nat
  /-- The timestamp at each sort position. -/
  times : List Int64
  /-- The runs of the sort positions, in order. -/
  runs : List Run
deriving DecidableEq, Repr

namespace TimeOrder

/-- The order of no rows. -/
def empty : TimeOrder :=
  ⟨[], [], []⟩

/-- The rows of the given timestamps in the order of their arrival. The runs are left to be
found again. -/
def start (times : List Int64) (order : TimeOrder) : TimeOrder :=
  { order with rows := List.range times.length, times := times }

/-- Sorts the rows by their timestamps, which are taken to be listed by row. Rows of one
timestamp keep their order. -/
def sort (order : TimeOrder) : TimeOrder :=
  let timesByRow := order.times.toArray
  let timeOf (row : Nat) : Int64 := timesByRow[row]?.getD 0
  let rows := order.rows.mergeSort fun first second => timeOf first ≤ timeOf second
  { order with rows := rows, times := rows.map timeOf }

/-- Whether two sorted rows, given with their timestamps, can stand next to each other in a
run. -/
def joins (first second : Nat × Int64) : Bool :=
  second.1 = first.1 + 1 && first.2 ≠ second.2

/-- The runs of consecutive groups of the given sizes, the first of them at `position`. -/
def runsOfSizes : (position : Nat) → (sizes : List Nat) → List Run
  | _, [] => []
  | position, size :: rest =>
    ⟨position, position + size - 1⟩ :: runsOfSizes (position + size) rest

/-- Splits the sorted rows into runs. -/
def splitRuns (order : TimeOrder) : TimeOrder :=
  let groups := (order.rows.zip order.times).splitBy joins
  { order with runs := runsOfSizes 0 (groups.map List.length) }

/-- The row at a sort position. -/
def rowAt (order : TimeOrder) (position : Nat) : Nat :=
  order.rows[position]?.getD 0

/-- The rows of a run. -/
def rowRange (order : TimeOrder) (run : Run) : RowRange :=
  ⟨run.first, order.rowAt run.first, order.rowAt run.last + 1⟩

/-- The rows of all runs, in order. -/
def rowRanges (order : TimeOrder) : List RowRange :=
  order.runs.map order.rowRange

/-- Whether the timestamp at a sort position is the one before it again. -/
def repeatsTime (order : TimeOrder) (position : Nat) : Bool :=
  0 < position && order.times[position]? = order.times[position - 1]?

/-- The list without the items that equal the item before them. -/
def withoutRepeats : List Int64 → List Int64
  | [] => []
  | [time] => [time]
  | time :: next :: rest =>
    if time = next then withoutRepeats (next :: rest) else time :: withoutRepeats (next :: rest)

/-- Each timestamp once, in order. -/
def distinctTimes (order : TimeOrder) : List Int64 :=
  withoutRepeats order.times

/-- The time order of the given timestamps, in place of an earlier one. -/
def rebuild (times : List Int64) (order : TimeOrder) : TimeOrder :=
  ((order.start times).sort).splitRuns

end TimeOrder

end Columnar
