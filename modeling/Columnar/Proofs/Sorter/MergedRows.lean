import Columnar.Proofs.TimeOrder
import Columnar.Sorter.Merged

/-!
# Rows merged in the order of time

A sorter meets the rows in the order of their timestamps.  `Cell.mergedRows` lists what the rows
met so far have become.  One more row either repeats the last timestamp, and then merges into the
last cell, or has a new one, and then adds a cell; nothing else changes.  At the end the list holds
for each timestamp the cell that `Cell.mergedAt` gives to the unsorted rows, because rows of one
timestamp keep their order when they are sorted.
-/

namespace Columnar.Cell

variable {times : List Int64} {cells : List Cell} {time : Int64} {cell : Cell}

/-- The cells that rows become when those of one timestamp merge. Timestamps and cells are listed
by row, in the order of time. -/
def mergedRows (times : List Int64) (cells : List Cell) : List Cell :=
  (TimeOrder.withoutRepeats times).map (mergedAt times cells)

theorem length_mergedRows (times : List Int64) (cells : List Cell) :
    (mergedRows times cells).length = (TimeOrder.withoutRepeats times).length := by
  rw [mergedRows, List.length_map]

theorem mergedAt_of_not_mem (absent : time ∉ times) : mergedAt times cells time = none := by
  have noRow : withTime time times cells = [] := by
    rw [withTime, List.map_eq_nil_iff, List.filter_eq_nil_iff]
    intro row member sameTime
    rw [decide_eq_true_iff] at sameTime
    rw [← sameTime] at absent
    exact absent (List.of_mem_zip member).1
  rw [mergedAt, noRow]
  rfl

/-! ## One more row -/

/-- A row that repeats the last timestamp merges into the last cell. -/
theorem mergedRows_append_repeat (cell : Cell) (sameLength : times.length = cells.length)
    (sorted : times.Pairwise (· ≤ ·)) (last : times.getLast? = some time) :
    ∃ front merged, mergedRows times cells = front ++ [merged] ∧
      mergedRows (times ++ [time]) (cells ++ [cell]) = front ++ [cell.or merged] := by
  have lastDistinct := TimeOrder.getLast?_withoutRepeats times
  rw [last] at lastDistinct
  obtain ⟨earlier, distinctEq⟩ := List.getLast?_eq_some_iff.mp lastDistinct
  have ascending := TimeOrder.pairwise_withoutRepeats sorted
  rw [distinctEq, List.pairwise_append] at ascending
  refine ⟨earlier.map (mergedAt times cells), mergedAt times cells time, ?_, ?_⟩
  · rw [mergedRows, distinctEq, List.map_append, List.map_singleton]
  · rw [mergedRows, TimeOrder.withoutRepeats_append_repeat last, distinctEq, List.map_append,
      List.map_singleton, mergedAt_append sameLength, if_pos rfl]
    congr 1
    apply List.map_congr_left
    intro other member
    have before := ascending.2.2 other member time List.mem_cons_self
    have different : time ≠ other := by
      rintro rfl
      exact Int64.lt_irrefl before
    rw [mergedAt_append sameLength, if_neg different]

private theorem not_mem_of_sorted (sorted : (times ++ [time]).Pairwise (· ≤ ·))
    (last : times.getLast? ≠ some time) : time ∉ times := by
  intro member
  obtain ⟨sorted, -, before⟩ := List.pairwise_append.mp sorted
  obtain ⟨greatest, greatestEq⟩ : ∃ greatest, times.getLast? = some greatest := by
    cases last_eq : times.getLast? with
    | none =>
      rw [List.getLast?_eq_none_iff.mp last_eq] at member
      exact absurd member List.not_mem_nil
    | some greatest => exact ⟨greatest, rfl⟩
  obtain ⟨front, rfl⟩ := List.getLast?_eq_some_iff.mp greatestEq
  have greatestLe : greatest ≤ time :=
    before greatest (List.mem_append_right _ List.mem_cons_self) time List.mem_cons_self
  have timeLe : time ≤ greatest := by
    rcases List.mem_append.mp member with earlier | same
    · exact (List.pairwise_append.mp sorted).2.2 time earlier greatest List.mem_cons_self
    · rw [List.mem_singleton.mp same]
      exact Int64.le_refl greatest
  rw [greatestEq, Int64.le_antisymm greatestLe timeLe] at last
  exact last rfl

/-- A row with a new timestamp adds its cell. -/
theorem mergedRows_append_new (sameLength : times.length = cells.length)
    (sorted : (times ++ [time]).Pairwise (· ≤ ·)) (last : times.getLast? ≠ some time) :
    mergedRows (times ++ [time]) (cells ++ [cell]) = mergedRows times cells ++ [cell] := by
  have absent := not_mem_of_sorted sorted last
  rw [mergedRows, TimeOrder.withoutRepeats_append_new last, List.map_append, List.map_singleton,
    mergedAt_append sameLength, if_pos rfl, mergedAt_of_not_mem absent, Option.or_none]
  congr 1
  apply List.map_congr_left
  intro other member
  have different : time ≠ other := by
    rintro rfl
    exact absent (TimeOrder.mem_withoutRepeats.mp member)
  rw [mergedAt_append sameLength, if_neg different]

/-- Rows that repeat no timestamp add their cells. -/
theorem mergedRows_append_run {runTimes : List Int64} {runCells : List Cell}
    (sameLength : times.length = cells.length) (runLength : runTimes.length = runCells.length)
    (sorted : (times ++ runTimes).Pairwise (· ≤ ·)) (distinct : runTimes.IsChain (· ≠ ·))
    (new : ∀ time ∈ runTimes.head?, times.getLast? ≠ some time) :
    mergedRows (times ++ runTimes) (cells ++ runCells) = mergedRows times cells ++ runCells := by
  induction runTimes generalizing times cells runCells with
  | nil =>
    rw [List.length_eq_zero_iff.mp runLength.symm, List.append_nil, List.append_nil,
      List.append_nil]
  | cons time rest ih =>
    cases runCells with
    | nil => cases runLength
    | cons cell restCells =>
      have longer : (times ++ [time]).length = (cells ++ [cell]).length := by
        rw [List.length_append, List.length_append, sameLength]
        rfl
      have splitTimes : times ++ time :: rest = times ++ [time] ++ rest := by simp
      have splitCells : cells ++ cell :: restCells = cells ++ [cell] ++ restCells := by simp
      rw [splitTimes] at sorted
      have nextNew : ∀ next ∈ rest.head?, (times ++ [time]).getLast? ≠ some next := by
        intro next headEq
        rw [List.getLast?_concat]
        intro same
        cases rest with
        | nil => cases headEq
        | cons following others =>
          have different := (List.isChain_cons_cons.mp distinct).1
          rw [List.head?_cons, Option.mem_some_iff] at headEq
          rw [headEq] at different
          exact different (Option.some.inj same)
      rw [splitTimes, splitCells,
        ih longer (Nat.succ.inj runLength) sorted distinct.of_cons nextNew,
        mergedRows_append_new sameLength (List.pairwise_append.mp sorted).1 (new time rfl),
        List.append_assoc]
      rfl

/-! ## All rows -/

/-- Merged rows take no more bytes than the rows did. -/
theorem length_packed_mergedRows_le (sameLength : times.length = cells.length)
    (sorted : times.Pairwise (· ≤ ·)) :
    (packed (mergedRows times cells)).length ≤ (packed cells).length := by
  induction times using List.reverseRecOn generalizing cells with
  | nil => exact Nat.zero_le _
  | append_singleton times time ih =>
    obtain ⟨earlier, cell, rfl⟩ : ∃ earlier cell, cells = earlier ++ [cell] := by
      rcases List.eq_nil_or_concat cells with rfl | ⟨earlier, cell, rfl⟩
      · simp at sameLength
      · exact ⟨earlier, cell, List.concat_eq_append⟩
    have shorter : times.length = earlier.length := by
      simpa using sameLength
    have bound := ih shorter (List.pairwise_append.mp sorted).1
    rw [packed_append, packed_singleton, List.length_append]
    by_cases last : times.getLast? = some time
    · obtain ⟨front, merged, before, behind⟩ := mergedRows_append_repeat cell shorter
        (List.pairwise_append.mp sorted).1 last
      rw [before, packed_append, packed_singleton, List.length_append] at bound
      rw [behind, packed_append, packed_singleton, List.length_append]
      cases cell with
      | none => exact Nat.le_trans bound (Nat.le_add_right _ _)
      | some value =>
        rw [Option.some_or]
        omega
    · rw [mergedRows_append_new shorter sorted last, packed_append, packed_singleton,
        List.length_append]
      exact Nat.add_le_add_right bound _

/-- The cells of a timestamp are those of its rows. -/
theorem withTime_map {α : Type} (time : Int64) (rows : List α) (timeOf : α → Int64)
    (cellOf : α → Cell) :
    withTime time (rows.map timeOf) (rows.map cellOf) =
      (rows.filter fun row => timeOf row = time).map cellOf := by
  rw [withTime, List.zip_map', List.filter_map, List.map_map]
  rfl

/-- Sorting rows by time does not change what the rows of a timestamp become. -/
theorem mergedAt_sortedRows (times : List Int64) (cellOf : Nat → Cell) (time : Int64) :
    mergedAt ((TimeOrder.sortedRows times).map (TimeOrder.timeAt times))
        ((TimeOrder.sortedRows times).map cellOf) time =
      mergedAt times ((List.range times.length).map cellOf) time := by
  have byRow : withTime time times ((List.range times.length).map cellOf) =
      ((List.range times.length).filter fun row => TimeOrder.timeAt times row = time).map
        cellOf := by
    rw [← withTime_map, TimeOrder.map_timeAt_range]
  rw [mergedAt, mergedAt, withTime_map, TimeOrder.filter_sortedRows, byRow]

end Columnar.Cell
