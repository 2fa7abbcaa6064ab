import Columnar.TimeOrder
import Mathlib

/-!
# The time order of a list of timestamps

Whatever a time order held before, rebuilding it sorts the rows of the given timestamps and splits
them into ranges of rows.  The sorted rows are `sortedRows`: a permutation of all rows, in the
order of the timestamps, that keeps the order of rows with one timestamp (`filter_sortedRows`).

`tiles_rebuild` says that the ranges, read in order, are exactly the sorted rows, each with the
sort position at which it starts, and that no range repeats a timestamp in a row.  The distinct
timestamps are those of the rows, and ascend strictly.  Rows that come in strictly ascending order
are a single range (`rowRanges_of_ascending`).
-/

namespace Columnar

section StableSort

universe u

variable {α : Type u} {le : α → α → Bool}

/-- A selection of tied items is not rearranged. -/
theorem filter_mergeSort (trans : ∀ first second third, le first second → le second third →
      le first third)
    (total : ∀ first second, le first second || le second first) (items : List α)
    (selects : α → Bool)
    (tied : ∀ first second, selects first → selects second → le first second) :
    (items.mergeSort le).filter selects = items.filter selects := by
  have pairwise : (items.filter selects).Pairwise fun first second => le first second := by
    apply List.pairwise_iff_forall_sublist.mpr
    intro first second kept
    have firstSelected := List.mem_filter.mp (kept.subset List.mem_cons_self)
    have secondSelected :=
      List.mem_filter.mp (kept.subset (List.mem_cons_of_mem _ List.mem_cons_self))
    exact tied first second firstSelected.2 secondSelected.2
  have kept : (items.filter selects).Sublist (items.mergeSort le) :=
    List.sublist_mergeSort trans total pairwise List.filter_sublist
  have selected := kept.filter selects
  rw [List.filter_filter] at selected
  simp only [Bool.and_self] at selected
  have sameLength := ((List.mergeSort_perm items le).filter selects).length_eq
  exact (selected.eq_of_length sameLength.symm).symm

end StableSort

namespace TimeOrder

variable (times : List Int64)

/-- The timestamp of a row. -/
def timeAt (row : Nat) : Int64 :=
  times[row]?.getD 0

/-- The rows in the order of their timestamps. -/
def sortedRows : List Nat :=
  (List.range times.length).mergeSort fun first second => timeAt times first ≤ timeAt times second

theorem map_timeAt_range : (List.range times.length).map (timeAt times) = times := by
  apply List.ext_getElem
  · rw [List.length_map, List.length_range]
  · intro row _ inside
    rw [List.getElem_map, List.getElem_range, timeAt, List.getElem?_eq_getElem inside,
      Option.getD_some]

/-! ## Sorted rows -/

theorem sortedRows_perm : (sortedRows times).Perm (List.range times.length) :=
  List.mergeSort_perm _ _

theorem length_sortedRows : (sortedRows times).length = times.length := by
  rw [(sortedRows_perm times).length_eq, List.length_range]

theorem mem_sortedRows {row : Nat} : row ∈ sortedRows times ↔ row < times.length := by
  rw [(sortedRows_perm times).mem_iff, List.mem_range]

private theorem timeAt_trans (first second third : Nat) :
    (decide (timeAt times first ≤ timeAt times second) = true) →
      (decide (timeAt times second ≤ timeAt times third) = true) →
        (decide (timeAt times first ≤ timeAt times third) = true) := by
  intro before behind
  rw [decide_eq_true_iff] at before behind ⊢
  exact Int64.le_trans before behind

private theorem timeAt_total (first second : Nat) :
    (decide (timeAt times first ≤ timeAt times second) ||
      decide (timeAt times second ≤ timeAt times first)) = true := by
  rw [Bool.or_eq_true, decide_eq_true_iff, decide_eq_true_iff]
  exact Int64.le_total _ _

theorem pairwise_sortedRows :
    ((sortedRows times).map (timeAt times)).Pairwise fun first second => first ≤ second := by
  rw [List.pairwise_map]
  have sorted := List.pairwise_mergeSort (timeAt_trans times) (timeAt_total times)
    (List.range times.length)
  apply sorted.imp
  intro first second ordered
  exact of_decide_eq_true ordered

/-- Rows of one timestamp keep the order in which they arrived. -/
theorem filter_sortedRows (time : Int64) :
    (sortedRows times).filter (fun row => timeAt times row = time) =
      (List.range times.length).filter fun row => timeAt times row = time := by
  apply filter_mergeSort (timeAt_trans times) (timeAt_total times)
  intro first second firstTime secondTime
  rw [decide_eq_true_iff] at firstTime secondTime ⊢
  rw [firstTime, secondTime]
  exact Int64.le_refl time

/-- The sorted rows with their timestamps. -/
def timedRows : List (Nat × Int64) :=
  (sortedRows times).map fun row => (row, timeAt times row)

theorem length_timedRows : (timedRows times).length = times.length := by
  rw [timedRows, List.length_map, length_sortedRows]

variable (order : TimeOrder)

private theorem lookup_eq : (fun row : Nat => times.toArray[row]?.getD 0) = timeAt times := by
  funext row
  rw [List.getElem?_toArray, timeAt]

theorem rows_rebuild : (order.rebuild times).rows = sortedRows times := by
  rw [sortedRows, ← lookup_eq]
  rfl

theorem times_rebuild : (order.rebuild times).times = (sortedRows times).map (timeAt times) := by
  rw [sortedRows, ← lookup_eq]
  rfl

theorem length_times_rebuild : (order.rebuild times).times.length = times.length := by
  rw [times_rebuild, List.length_map, length_sortedRows]

/-- Before the first sort position there is no timestamp to repeat. -/
theorem repeatsTime_zero : order.repeatsTime 0 = false := by
  rw [repeatsTime, decide_eq_false (Nat.lt_irrefl 0), Bool.false_and]

/-- A sort position repeats its timestamp if the sorted rows before it end with that timestamp. -/
theorem repeatsTime_rebuild {front rest : List Nat} {row : Nat}
    (rowsEq : sortedRows times = front ++ row :: rest) :
    (order.rebuild times).repeatsTime front.length = true ↔
      (front.map (timeAt times)).getLast? = some (timeAt times row) := by
  have own : (order.rebuild times).times[front.length]? = some (timeAt times row) := by
    rw [times_rebuild, rowsEq, List.getElem?_map, List.getElem?_append_right (Nat.le_refl _),
      Nat.sub_self, List.getElem?_cons_zero, Option.map_some]
  rw [repeatsTime, Bool.and_eq_true, decide_eq_true_iff, decide_eq_true_iff, own]
  rcases List.eq_nil_or_concat front with rfl | ⟨earlier, last, rfl⟩
  · constructor
    · rintro ⟨positive, -⟩
      exact absurd positive (Nat.lt_irrefl 0)
    · intro noLast
      cases noLast
  · rw [List.concat_eq_append] at rowsEq ⊢
    have before : (order.rebuild times).times[(earlier ++ [last]).length - 1]? =
        some (timeAt times last) := by
      rw [times_rebuild, rowsEq, List.length_append, List.length_singleton, Nat.add_sub_cancel,
        List.append_assoc, List.getElem?_map, List.getElem?_append_right (Nat.le_refl _),
        Nat.sub_self]
      rfl
    rw [before, List.map_append, List.map_singleton, List.getLast?_concat]
    constructor
    · rintro ⟨-, same⟩
      exact same.symm
    · intro same
      refine ⟨?_, same.symm⟩
      rw [List.length_append]
      exact Nat.succ_pos _

/-! ## Ranges of rows -/

/-- The ranges, read in order from a sort position on, are the given rows. Neighbours inside a
range differ in their timestamps. -/
inductive Tiles : (position : Nat) → List RowRange → (rows : List Nat) → Prop where
  | nil {position : Nat} : Tiles position [] []
  | cons {position first count : Nat} {ranges : List RowRange} {rows : List Nat}
      (nonempty : 0 < count)
      (distinct : ((List.range' first count).map (timeAt times)).IsChain (· ≠ ·))
      (rest : Tiles (position + count) ranges rows) :
      Tiles position (⟨position, first, first + count⟩ :: ranges)
        (List.range' first count ++ rows)

variable {times order}

theorem Tiles.ranges_eq_nil {position : Nat} {ranges : List RowRange} {rows : List Nat}
    (tiles : Tiles times position ranges rows) (rowsEq : rows = []) : ranges = [] := by
  cases tiles with
  | nil => rfl
  | cons nonempty distinct rest =>
    have length := congrArg List.length rowsEq
    rw [List.length_append, List.length_range', List.length_nil] at length
    omega

/-- Rows that join with each other follow each other. -/
private theorem map_fst_of_joins {row : Nat} {time : Int64} {group : List (Nat × Int64)}
    (chain : ((row, time) :: group).IsChain fun first second => joins first second = true) :
    ((row, time) :: group).map Prod.fst = List.range' row (group.length + 1) := by
  induction group generalizing row time with
  | nil => rfl
  | cons next rest ih =>
    obtain ⟨nextRow, nextTime⟩ := next
    obtain ⟨joined, chain⟩ := List.isChain_cons_cons.mp chain
    have successor : nextRow = row + 1 := by
      simp only [joins, Bool.and_eq_true, decide_eq_true_iff] at joined
      exact joined.1
    rw [List.map_cons, ih chain, List.length_cons, successor, ← List.range'_succ]

private theorem distinct_of_joins {group : List (Nat × Int64)}
    (chain : group.IsChain fun first second => joins first second = true) :
    (group.map Prod.snd).IsChain (· ≠ ·) := by
  rw [List.isChain_map]
  apply chain.imp
  intro first second joined
  simp only [joins, Bool.and_eq_true, decide_eq_true_iff] at joined
  exact joined.2

/-- The run of a group of sorted rows is the range of these rows. -/
private theorem rowRange_eq {front : List Nat} {row count : Nat} {rest : List Nat}
    (rowsEq : order.rows = front ++ (List.range' row (count + 1) ++ rest)) :
    order.rowRange ⟨front.length, front.length + (count + 1) - 1⟩ =
      ⟨front.length, row, row + (count + 1)⟩ := by
  have lookup (offset : Nat) (inside : offset < count + 1) :
      order.rowAt (front.length + offset) = row + offset := by
    have offsetLt : offset < (List.range' row (count + 1)).length := by
      rw [List.length_range']
      exact inside
    rw [rowAt, rowsEq, List.getElem?_append_right (Nat.le_add_right _ _),
      Nat.add_sub_cancel_left, List.getElem?_append_left offsetLt,
      List.getElem?_range' inside, Option.getD_some, Nat.one_mul]
  have first := lookup 0 (Nat.succ_pos count)
  have last := lookup count (Nat.lt_succ_self count)
  have lastPosition : front.length + (count + 1) - 1 = front.length + count := by omega
  rw [rowRange, lastPosition, last, Nat.add_assoc]
  rw [Nat.add_zero, Nat.add_zero] at first
  rw [first]

private theorem tiles_groups {groups : List (List (Nat × Int64))} {front : List Nat}
    (rowsEq : order.rows = front ++ groups.flatten.map Prod.fst)
    (nonempty : ∀ group ∈ groups, group ≠ [])
    (chained : ∀ group ∈ groups, group.IsChain fun first second => joins first second = true)
    (timed : ∀ pair ∈ groups.flatten, pair.2 = timeAt times pair.1) :
    Tiles times front.length
      ((runsOfSizes front.length (groups.map List.length)).map order.rowRange)
      (groups.flatten.map Prod.fst) := by
  induction groups generalizing front with
  | nil => exact .nil
  | cons group rest ih =>
    cases group with
    | nil => exact absurd rfl (nonempty [] List.mem_cons_self)
    | cons pair others =>
      have chain := chained _ List.mem_cons_self
      have rows := map_fst_of_joins chain
      have distinct := distinct_of_joins chain
      have ownTimes : (pair :: others).map Prod.snd =
          ((pair :: others).map Prod.fst).map (timeAt times) := by
        rw [List.map_map]
        apply List.map_congr_left
        intro member membership
        exact timed member (List.mem_flatten_of_mem List.mem_cons_self membership)
      rw [ownTimes, rows] at distinct
      rw [List.flatten_cons, List.map_append, rows] at rowsEq
      have restEq := rowsEq
      rw [← List.append_assoc] at restEq
      have restTiles := ih restEq
        (fun group member => nonempty group (List.mem_cons_of_mem _ member))
        (fun group member => chained group (List.mem_cons_of_mem _ member))
        (fun pair member => timed pair (by
          rw [List.flatten_cons]
          exact List.mem_append_right _ member))
      rw [List.length_append, List.length_range'] at restTiles
      rw [List.map_cons, runsOfSizes, List.map_cons, List.length_cons, rowRange_eq rowsEq,
        List.flatten_cons, List.map_append, rows]
      exact .cons (Nat.succ_pos _) distinct restTiles

/-- The runs of a rebuilt order are the groups of sorted rows that join with each other. -/
theorem runs_rebuild (times : List Int64) (order : TimeOrder) :
    (order.rebuild times).runs =
      runsOfSizes 0 (((timedRows times).splitBy joins).map List.length) := by
  have pairsEq : (order.rebuild times).rows.zip (order.rebuild times).times = timedRows times := by
    rw [rows_rebuild, times_rebuild, timedRows, List.map_prod_left_eq_zip]
  rw [← pairsEq]
  rfl

/-- The ranges of a rebuilt order are the sorted rows, in order. -/
theorem tiles_rebuild (times : List Int64) (order : TimeOrder) :
    Tiles times 0 (order.rebuild times).rowRanges (sortedRows times) := by
  have rowsEq := rows_rebuild times order
  have runsEq := runs_rebuild times order
  have flattened := List.flatten_splitBy joins (timedRows times)
  have rowsOfPairs : (timedRows times).map Prod.fst = sortedRows times := by
    rw [timedRows, List.map_map]
    exact List.map_id _
  have splitRows : (order.rebuild times).rows =
      [] ++ ((timedRows times).splitBy joins).flatten.map Prod.fst := by
    rw [flattened, rowsOfPairs, rowsEq, List.nil_append]
  have timed : ∀ pair ∈ ((timedRows times).splitBy joins).flatten,
      pair.2 = timeAt times pair.1 := by
    intro pair member
    rw [flattened] at member
    obtain ⟨row, -, rfl⟩ := List.mem_map.mp member
    rfl
  have tiles := tiles_groups splitRows (fun group member => List.ne_nil_of_mem_splitBy member)
    (fun group member => List.isChain_of_mem_splitBy member) timed
  rw [flattened, rowsOfPairs, List.length_nil, ← runsEq] at tiles
  exact tiles

/-! ## Distinct timestamps -/

theorem getLast?_withoutRepeats (times : List Int64) :
    (withoutRepeats times).getLast? = times.getLast? := by
  induction times using withoutRepeats.induct with
  | case1 => rfl
  | case2 time => rfl
  | case3 time rest ih =>
    rw [withoutRepeats, if_pos rfl, ih, List.getLast?_cons_cons]
  | case4 time next rest different ih =>
    rw [List.getLast?_cons_cons, ← ih, withoutRepeats, if_neg different, List.getLast?_cons, ih,
      List.getLast?_cons]
    rfl

theorem mem_withoutRepeats {time : Int64} {times : List Int64} :
    time ∈ withoutRepeats times ↔ time ∈ times := by
  induction times using withoutRepeats.induct with
  | case1 => exact Iff.rfl
  | case2 time => exact Iff.rfl
  | case3 time rest ih =>
    rw [withoutRepeats, if_pos rfl, ih]
    simp
  | case4 first next rest different ih =>
    rw [withoutRepeats, if_neg different, List.mem_cons, List.mem_cons, ih]

theorem length_withoutRepeats_le (times : List Int64) :
    (withoutRepeats times).length ≤ times.length := by
  induction times using withoutRepeats.induct with
  | case1 => exact Nat.le_refl _
  | case2 time => exact Nat.le_refl _
  | case3 time rest ih =>
    rw [withoutRepeats, if_pos rfl, List.length_cons]
    exact Nat.le_succ_of_le ih
  | case4 first next rest different ih =>
    rw [withoutRepeats, if_neg different, List.length_cons, List.length_cons]
    exact Nat.succ_le_succ ih

/-- Sorted timestamps without repeats ascend strictly. -/
theorem pairwise_withoutRepeats {times : List Int64} (sorted : times.Pairwise (· ≤ ·)) :
    (withoutRepeats times).Pairwise (· < ·) := by
  induction times using withoutRepeats.induct with
  | case1 => exact .nil
  | case2 time => exact List.pairwise_singleton _ _
  | case3 time rest ih =>
    rw [withoutRepeats, if_pos rfl]
    exact ih (List.pairwise_cons.mp sorted).2
  | case4 first next rest different ih =>
    obtain ⟨before, sorted⟩ := List.pairwise_cons.mp sorted
    rw [withoutRepeats, if_neg different]
    apply List.pairwise_cons.mpr
    constructor
    · intro time member
      have nextLe : next ≤ time := by
        rcases List.mem_cons.mp (mem_withoutRepeats.mp member) with rfl | later
        · exact Int64.le_refl _
        · exact (List.pairwise_cons.mp sorted).1 time later
      have firstLt : first < next :=
        Int64.lt_of_le_of_ne (before next List.mem_cons_self) different
      exact Int64.lt_of_lt_of_le firstLt nextLe
    · exact ih sorted

theorem withoutRepeats_of_ascending {times : List Int64} (ascending : times.Pairwise (· < ·)) :
    withoutRepeats times = times := by
  induction times using withoutRepeats.induct with
  | case1 => rfl
  | case2 time => rfl
  | case3 time rest ih =>
    have before := (List.pairwise_cons.mp ascending).1 time List.mem_cons_self
    exact absurd before Int64.lt_irrefl
  | case4 first next rest different ih =>
    rw [withoutRepeats, if_neg different, ih (List.pairwise_cons.mp ascending).2]

theorem withoutRepeats_append_repeat {times : List Int64} {time : Int64}
    (last : times.getLast? = some time) :
    withoutRepeats (times ++ [time]) = withoutRepeats times := by
  induction times using withoutRepeats.induct with
  | case1 => cases last
  | case2 only =>
    obtain rfl : only = time := Option.some.inj last
    simp [withoutRepeats]
  | case3 first rest ih =>
    rw [List.getLast?_cons_cons] at last
    rw [List.cons_append, List.cons_append, withoutRepeats, if_pos rfl, withoutRepeats,
      if_pos rfl, ← List.cons_append, ih last]
  | case4 first next rest different ih =>
    rw [List.getLast?_cons_cons] at last
    rw [List.cons_append, List.cons_append, withoutRepeats, if_neg different, withoutRepeats,
      if_neg different, ← List.cons_append, ih last]

theorem withoutRepeats_append_new {times : List Int64} {time : Int64}
    (last : times.getLast? ≠ some time) :
    withoutRepeats (times ++ [time]) = withoutRepeats times ++ [time] := by
  induction times using withoutRepeats.induct with
  | case1 => rfl
  | case2 only =>
    have different : only ≠ time := by
      rintro rfl
      exact last rfl
    simp [withoutRepeats, different]
  | case3 first rest ih =>
    rw [List.getLast?_cons_cons] at last
    rw [List.cons_append, List.cons_append, withoutRepeats, if_pos rfl, withoutRepeats,
      if_pos rfl, ← List.cons_append, ih last]
  | case4 first next rest different ih =>
    rw [List.getLast?_cons_cons] at last
    rw [List.cons_append, List.cons_append, withoutRepeats, if_neg different, withoutRepeats,
      if_neg different, ← List.cons_append, ih last, List.cons_append]

variable (times order)

theorem distinctTimes_rebuild :
    (order.rebuild times).distinctTimes =
      withoutRepeats ((sortedRows times).map (timeAt times)) := by
  rw [distinctTimes, times_rebuild]

theorem pairwise_distinctTimes : (order.rebuild times).distinctTimes.Pairwise (· < ·) := by
  rw [distinctTimes_rebuild]
  exact pairwise_withoutRepeats (pairwise_sortedRows times)

theorem mem_distinctTimes (time : Int64) :
    time ∈ (order.rebuild times).distinctTimes ↔ time ∈ times := by
  have permuted := (sortedRows_perm times).map (timeAt times)
  rw [map_timeAt_range] at permuted
  rw [distinctTimes_rebuild, mem_withoutRepeats]
  exact permuted.mem_iff

theorem length_distinctTimes_le : (order.rebuild times).distinctTimes.length ≤ times.length := by
  have bound := length_withoutRepeats_le ((sortedRows times).map (timeAt times))
  rw [List.length_map, length_sortedRows] at bound
  rw [distinctTimes_rebuild]
  exact bound

/-- Each timestamp once, in ascending order. -/
def ascending : List Int64 :=
  (empty.rebuild times).distinctTimes

theorem distinctTimes_eq_ascending : (order.rebuild times).distinctTimes = ascending times :=
  rfl

theorem pairwise_ascending : (ascending times).Pairwise (· < ·) :=
  pairwise_distinctTimes times empty

theorem mem_ascending {time : Int64} : time ∈ ascending times ↔ time ∈ times :=
  mem_distinctTimes times empty time

theorem length_ascending_le : (ascending times).length ≤ times.length :=
  length_distinctTimes_le times empty

theorem ascending_nil : ascending [] = [] :=
  List.length_eq_zero_iff.mp (Nat.le_zero.mp (length_ascending_le []))

/-- Timestamps in front may be taken once before those behind them are. -/
theorem ascending_append (laterTimes : List Int64) :
    ascending (ascending times ++ laterTimes) = ascending (times ++ laterTimes) := by
  apply (pairwise_ascending _).eq_of_mem_iff (pairwise_ascending _)
  intro time
  rw [mem_ascending, mem_ascending, List.mem_append, List.mem_append, mem_ascending]

/-! ## Rows that are in order -/

section Ascending

variable {times} (ascending : times.Pairwise (· < ·))
include ascending

private theorem pairwise_timeAt_range :
    (List.range times.length).Pairwise fun first second =>
      timeAt times first < timeAt times second := by
  rw [← map_timeAt_range times, List.pairwise_map] at ascending
  exact ascending

theorem sortedRows_of_ascending : sortedRows times = List.range times.length := by
  apply List.mergeSort_of_pairwise
  apply (pairwise_timeAt_range ascending).imp
  intro first second before
  exact decide_eq_true (Int64.le_of_lt before)

/-- Rows that are in order and repeat no timestamp are a single range. -/
theorem rowRanges_of_ascending (nonempty : 0 < times.length) :
    (order.rebuild times).rowRanges = [⟨0, 0, times.length⟩] := by
  have rowsEq := sortedRows_of_ascending ascending
  have chain : ((List.range times.length).map fun row => (row, timeAt times row)).IsChain
      fun first second => joins first second = true := by
    rw [List.isChain_map, List.isChain_range]
    intro row inside
    have before := (List.isChain_range _ _).mp (pairwise_timeAt_range ascending).isChain row inside
    simp [joins, Int64.ne_of_lt before]
  have someRows : (List.range times.length).map (fun row => (row, timeAt times row)) ≠ [] := by
    simp [Nat.ne_of_gt nonempty]
  have oneRun := runs_rebuild times order
  rw [timedRows, rowsEq, List.splitBy_of_isChain someRows chain, List.map_singleton,
    List.length_map, List.length_range] at oneRun
  obtain ⟨count, countEq⟩ := Nat.exists_eq_add_of_le' nonempty
  have rowsSplit : (order.rebuild times).rows = [] ++ (List.range' 0 (count + 1) ++ []) := by
    rw [rows_rebuild, rowsEq, countEq, List.range_eq_range', List.append_nil, List.nil_append]
  have range := rowRange_eq rowsSplit
  rw [countEq] at oneRun ⊢
  rw [rowRanges, oneRun, runsOfSizes, runsOfSizes, List.map_singleton]
  rw [List.length_nil, Nat.zero_add] at range
  rw [Nat.zero_add, range]

theorem distinctTimes_of_ascending : (order.rebuild times).distinctTimes = times := by
  rw [distinctTimes_rebuild, sortedRows_of_ascending ascending, map_timeAt_range]
  exact withoutRepeats_of_ascending ascending

end Ascending

end TimeOrder

end Columnar
