import Columnar.Column.Cells

/-!
# Merged rows

What sorting by time makes of the rows of a batch, said for each timestamp on its own.  The rows
of one timestamp become one row, and each column keeps the last present cell among theirs, in the
order in which the rows arrived.

`mergedAt_append` says that a later row has precedence where it has a value, and that rows of
other timestamps have no part in it.
-/

namespace Columnar.Cell

/-- The last present cell, or a null where all are null. -/
def lastPresent (cells : List Cell) : Cell :=
  (cells.filterMap id).getLast?

theorem lastPresent_append (front back : List Cell) :
    lastPresent (front ++ back) = (lastPresent back).or (lastPresent front) := by
  simp [lastPresent, List.getLast?_append]

@[simp] theorem lastPresent_singleton (cell : Cell) : lastPresent [cell] = cell := by
  cases cell <;> rfl

/-- The cells of the rows with a timestamp, where timestamps and cells are listed by row. -/
def withTime (time : Int64) (times : List Int64) (cells : List Cell) : List Cell :=
  ((times.zip cells).filter fun row => row.1 = time).map Prod.snd

theorem withTime_append {time : Int64} {firstTimes secondTimes : List Int64}
    {firstCells secondCells : List Cell} (sameLength : firstTimes.length = firstCells.length) :
    withTime time (firstTimes ++ secondTimes) (firstCells ++ secondCells) =
      withTime time firstTimes firstCells ++ withTime time secondTimes secondCells := by
  rw [withTime, List.zip_append sameLength, List.filter_append, List.map_append]
  rfl

/-- The cell of the one row that the rows with a timestamp become. -/
def mergedAt (times : List Int64) (cells : List Cell) (time : Int64) : Cell :=
  lastPresent (withTime time times cells)

theorem mergedAt_append {times : List Int64} {cells : List Cell}
    (sameLength : times.length = cells.length) (added : Int64) (cell : Cell) (time : Int64) :
    mergedAt (times ++ [added]) (cells ++ [cell]) time =
      if added = time then cell.or (mergedAt times cells time) else mergedAt times cells time := by
  rw [mergedAt, withTime_append sameLength, lastPresent_append]
  by_cases sameTime : added = time
  · simp [withTime, mergedAt, sameTime]
  · have noCell : lastPresent [] = none := rfl
    simp [withTime, mergedAt, sameTime, noCell]

end Columnar.Cell
