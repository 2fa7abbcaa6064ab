import Columnar.Proofs.Column.LastRow
import Columnar.Proofs.Column.Slice
import Columnar.Proofs.Sorter.MergedRows
import Columnar.Sorter

/-!
# Merging one column

`mergeColumn` reads the ranges of the time order one after the other.  What it keeps true is
`MergedTo`: the column built so far is the packed form of the rows read so far, merged.  A range
whose first row repeats the last timestamp replaces the last cell and then appends; every other
range only appends.

One case lies outside the invariant.  If the rows arrive in order and without repeats, they are a
single range, and the source is copied as a whole.
-/

namespace Columnar.Sorter

open TimeOrder (timeAt sortedRows)

/-- A column that can be merged by the timestamps of its rows, with its null index. -/
structure Mergeable (times : List Int64) (type : ValueType) (source : Column)
    (nulls : NullIndex) : Prop where
  kept : type.storage ≠ .absent
  consistent : source.Consistent type.storage
  ranks : nulls.Ranks source
  rowCount_eq : source.rowCount.toInt = times.length
  addressable : source.Addressable type.storage

/-- The merged cells of some rows of a column, the rows listed in the order of time. -/
def mergedCells (times : List Int64) (storage : Storage) (source : Column) (rows : List Nat) :
    List Cell :=
  Cell.mergedRows (rows.map (timeAt times)) (rows.map fun (row : Nat) => source.cellAt storage row)

/-- A column built from the given rows. -/
structure MergedTo (times : List Int64) (type : ValueType) (source : Column) (rows : List Nat)
    (target : Column) : Prop where
  represents : target.Represents type.storage (mergedCells times type.storage source rows)
  bitOffset_eq : target.bitOffset = 0

variable {times : List Int64} {type : ValueType} {source : Column} {nulls : NullIndex}

theorem mergedTo_empty : MergedTo times type source [] .empty where
  represents := Column.represents_empty type.storage
  bitOffset_eq := rfl

/-! ## Merged cells -/

theorem length_mergedCells_le (times : List Int64) (storage : Storage) (source : Column)
    (rows : List Nat) :
    (mergedCells times storage source rows).length ≤ rows.length := by
  rw [mergedCells, Cell.length_mergedRows]
  have bound := TimeOrder.length_withoutRepeats_le (rows.map (timeAt times))
  rw [List.length_map] at bound
  exact bound

private theorem pairwise_front {front rest : List Nat}
    (rowsEq : sortedRows times = front ++ rest) :
    (front.map (timeAt times)).Pairwise (· ≤ ·) := by
  have sorted := TimeOrder.pairwise_sortedRows times
  rw [rowsEq, List.map_append] at sorted
  exact (List.pairwise_append.mp sorted).1

/-- A range that repeats no timestamp adds the cells of its rows. -/
theorem mergedCells_append_range (storage : Storage) (source : Column) {front rest : List Nat}
    {first count : Nat}
    (rowsEq : sortedRows times = front ++ (List.range' first count ++ rest))
    (distinct : ((List.range' first count).map (timeAt times)).IsChain (· ≠ ·))
    (new : 0 < count → (front.map (timeAt times)).getLast? ≠ some (timeAt times first)) :
    mergedCells times storage source (front ++ List.range' first count) =
      mergedCells times storage source front ++ source.cellsFrom storage first count := by
  rw [← List.append_assoc] at rowsEq
  have sorted := pairwise_front rowsEq
  rw [List.map_append] at sorted
  rw [mergedCells, List.map_append, List.map_append]
  apply Cell.mergedRows_append_run
  · rw [List.length_map, List.length_map]
  · rw [List.length_map, List.length_map]
  · exact sorted
  · exact distinct
  · intro time headEq
    cases count with
    | zero => cases headEq
    | succ count =>
      rw [List.range'_succ, List.map_cons, List.head?_cons, Option.mem_some_iff] at headEq
      rw [← headEq]
      exact new (Nat.succ_pos count)

/-- At the end each timestamp has the cell that its rows become. -/
theorem mergedCells_sortedRows (mergeable : Mergeable times type source nulls) :
    mergedCells times type.storage source (sortedRows times) =
      (TimeOrder.withoutRepeats ((sortedRows times).map (timeAt times))).map
        (Cell.mergedAt times (source.cells type.storage)) := by
  have rows : source.rowCount.toInt.toNat = times.length := by
    rw [mergeable.rowCount_eq, Int.toNat_natCast]
  rw [mergedCells, Cell.mergedRows, Column.cells, rows]
  apply List.map_congr_left
  intro time _
  exact Cell.mergedAt_sortedRows times (fun row => source.cellAt type.storage row) time

namespace Mergeable

theorem length_times_lt (mergeable : Mergeable times type source nulls) :
    times.length < 2 ^ 31 := by
  have bound := source.rowCount.toInt_lt
  have counted := mergeable.rowCount_eq
  omega

theorem toNat_rowCount (mergeable : Mergeable times type source nulls) :
    source.rowCount.toInt.toNat = times.length := by
  rw [mergeable.rowCount_eq, Int.toNat_natCast]

/-- Neither sorting nor merging adds bytes. -/
theorem length_packed_le (mergeable : Mergeable times type source nulls) {front rest : List Nat}
    (rowsEq : sortedRows times = front ++ rest) :
    (Cell.packed (mergedCells times type.storage source front)).length ≤ source.values.length := by
  let cellOf (row : Nat) : Cell := source.cellAt type.storage row
  have merged : (Cell.packed (mergedCells times type.storage source front)).length ≤
      (Cell.packed (front.map cellOf)).length := by
    apply Cell.length_packed_mergedRows_le
    · rw [List.length_map, List.length_map]
    · exact pairwise_front rowsEq
  have frontLe : (Cell.packed (front.map cellOf)).length ≤
      (Cell.packed ((sortedRows times).map cellOf)).length := by
    rw [rowsEq, List.map_append, Cell.packed_append, List.length_append]
    exact Nat.le_add_right _ _
  have sorted : (Cell.packed ((sortedRows times).map cellOf)).length =
      (Cell.packed (source.cellsFrom type.storage 0 times.length)).length := by
    have permuted := (TimeOrder.sortedRows_perm times).map cellOf
    rw [List.range_eq_range'] at permuted
    exact (permuted.flatMap_right Cell.bytes).length_eq
  have all : (Cell.packed (source.cellsFrom type.storage 0 times.length)).length ≤
      source.values.length := by
    have inside : 0 + times.length ≤ source.rowCount.toInt.toNat := by
      rw [mergeable.toNat_rowCount, Nat.zero_add]
    rw [mergeable.consistent.packed_cellsFrom inside,
      Bytes.length_slice (mergeable.consistent.sound.valueStart_le inside)]
    exact Nat.le_trans (Nat.sub_le _ _) (mergeable.consistent.sound.valueStart_le inside)
  omega

end Mergeable

/-! ## One range -/

/-- Rows of the source add their cells, unless they are all its rows. -/
theorem appendRange_ok (mergeable : Mergeable times type source nulls) {cells : List Cell}
    {target : Column} (represents : target.Represents type.storage cells) {first count : Nat}
    (inside : first + count ≤ times.length) (rowsFit : cells.length + count < 2 ^ 31)
    (fewer : count < times.length) :
    ∃ longer, appendRange source type nulls first (first + count) target = .ok longer ∧
      longer.Represents type.storage (cells ++ source.cellsFrom type.storage first count) ∧
      longer.bitOffset = target.bitOffset := by
  rw [← mergeable.toNat_rowCount] at inside fewer
  rw [appendRange]
  split
  next nonempty =>
    have positive : 0 < count := by omega
    refine ⟨source.appendRange type.storage first (first + count : Nat) nulls target, ?_, ?_, rfl⟩
    · exact Column.appendRows_eq_appendRange mergeable.kept positive inside (Or.inl fewer) nulls
    · exact represents.appendRange mergeable.consistent mergeable.addressable mergeable.kept
        mergeable.ranks positive inside rowsFit
  next none =>
    have zero : count = 0 := by omega
    refine ⟨target, rfl, ?_, rfl⟩
    rw [zero, Column.cellsFrom, List.range'_zero, List.map_nil, List.append_nil]
    exact represents

/-- A row takes the place of the last cell, unless it is null. -/
theorem mergeRow_ok (mergeable : Mergeable times type source nulls) {cells : List Cell}
    {last : Cell} {target : Column} (represents : target.Represents type.storage (cells ++ [last]))
    (addressable : target.Addressable type.storage) {row : Nat} (inside : row < times.length)
    (several : 1 < times.length) :
    ∃ merged, mergeRow source type nulls row target = .ok merged ∧
      merged.Represents type.storage (cells ++ [(source.cellAt type.storage row).or last]) ∧
      merged.bitOffset = target.bitOffset := by
  have noneIff := source.isNull_cellAt type.storage row
  rw [mergeRow]
  split
  next null =>
    rw [null, Option.isNone_iff_eq_none] at noneIff
    refine ⟨target, rfl, ?_, rfl⟩
    rw [noneIff, Option.none_or]
    exact represents
  next present =>
    have rowCountEq := represents.rowCount_eq
    have rowsFit := target.rowCount.toInt_lt
    rw [List.length_append, List.length_singleton] at rowCountEq
    have someRows : target.rowCount ≠ 0 := Column.ne_zero_of_toInt_pos (by omega)
    have removed : target.removeLast type = .ok (target.withoutLast type.storage) := by
      rw [Column.removeLast]
      split
      next absent => exact absurd absent mergeable.kept
      next => rw [if_neg someRows]
    have shorter := represents.withoutLast addressable
    have oneRow : source.cellsFrom type.storage row 1 = [source.cellAt type.storage row] := rfl
    have replaced : (source.cellAt type.storage row).or last = source.cellAt type.storage row := by
      rw [Bool.not_eq_true] at present
      rw [present, Option.isNone_eq_false_iff] at noneIff
      exact Option.or_of_isSome noneIff
    have rowInside : row + 1 ≤ source.rowCount.toInt.toNat := by
      rw [mergeable.toNat_rowCount]
      exact inside
    have notWhole : 1 < source.rowCount.toInt.toNat ∨
        (target.withoutLast type.storage).rowCount ≠ 0 := by
      rw [mergeable.toNat_rowCount]
      exact Or.inl several
    have appended := shorter.appendRange mergeable.consistent mergeable.addressable mergeable.kept
      mergeable.ranks Nat.one_pos rowInside (by omega)
    rw [oneRow] at appended
    rw [removed, replaced]
    exact ⟨_, Column.appendRows_eq_appendRange mergeable.kept Nat.one_pos rowInside notWhole
      nulls, appended, rfl⟩

/-! ## Keeping the column merged -/

/-- A merged column takes no more room than its source. -/
theorem MergedTo.values_le (mergeable : Mergeable times type source nulls) {front rest : List Nat}
    {target : Column} (merged : MergedTo times type source front target)
    (rowsEq : sortedRows times = front ++ rest) :
    target.values.length ≤ source.values.length := by
  rw [merged.represents.values_eq]
  exact mergeable.length_packed_le rowsEq

private theorem range_inside {front rest : List Nat} {first count : Nat}
    (rowsEq : sortedRows times = front ++ (List.range' first count ++ rest))
    (nonempty : 0 < count) : first + count ≤ times.length := by
  have lastMem : first + (count - 1) ∈ sortedRows times := by
    rw [rowsEq]
    apply List.mem_append_right
    apply List.mem_append_left
    rw [List.mem_range'_1]
    omega
  have lastLt := (TimeOrder.mem_sortedRows times).mp lastMem
  omega

/-- Rows that repeat no timestamp are appended to a merged column. -/
theorem appendRange_mergedTo (mergeable : Mergeable times type source nulls)
    {front rest : List Nat} {first count : Nat} {target : Column}
    (merged : MergedTo times type source front target)
    (rowsEq : sortedRows times = front ++ (List.range' first count ++ rest))
    (distinct : ((List.range' first count).map (timeAt times)).IsChain (· ≠ ·))
    (new : 0 < count → (front.map (timeAt times)).getLast? ≠ some (timeAt times first))
    (inside : first + count ≤ times.length) (fewer : count < times.length) :
    ∃ longer, appendRange source type nulls first (first + count) target = .ok longer ∧
      MergedTo times type source (front ++ List.range' first count) longer := by
  have total := TimeOrder.length_sortedRows times
  have timesFit := mergeable.length_times_lt
  have cellsLe := length_mergedCells_le times type.storage source front
  rw [rowsEq, List.length_append, List.length_append, List.length_range'] at total
  obtain ⟨longer, longerEq, represents, bitOffsetEq⟩ :=
    appendRange_ok mergeable merged.represents inside (by omega) fewer
  refine ⟨longer, longerEq, ?_, ?_⟩
  · rw [mergedCells_append_range type.storage source rowsEq distinct new]
    exact represents
  · rw [bitOffsetEq, merged.bitOffset_eq]

/-- A row that repeats the last timestamp is merged into the last row of a merged column. -/
theorem mergeRow_mergedTo (mergeable : Mergeable times type source nulls)
    {front rest : List Nat} {row : Nat} {target : Column}
    (merged : MergedTo times type source front target)
    (rowsEq : sortedRows times = front ++ row :: rest)
    (last : (front.map (timeAt times)).getLast? = some (timeAt times row)) :
    ∃ replaced, mergeRow source type nulls row target = .ok replaced ∧
      MergedTo times type source (front ++ [row]) replaced := by
  have inside : row < times.length := by
    apply (TimeOrder.mem_sortedRows times).mp
    rw [rowsEq]
    exact List.mem_append_right _ List.mem_cons_self
  have several : 1 < times.length := by
    have total := TimeOrder.length_sortedRows times
    rw [rowsEq, List.length_append, List.length_cons] at total
    have someFront : 0 < front.length := by
      cases front with
      | nil => cases last
      | cons earlier others => exact Nat.succ_pos _
    omega
  have addressable := mergeable.addressable.mono (merged.values_le mergeable rowsEq)
  have sameLength : (front.map (timeAt times)).length =
      (front.map fun (row : Nat) => source.cellAt type.storage row).length := by
    rw [List.length_map, List.length_map]
  obtain ⟨cells, cell, cellsEq, mergedEq⟩ := Cell.mergedRows_append_repeat
    (source.cellAt type.storage row) sameLength (pairwise_front rowsEq) last
  have represents := merged.represents
  rw [mergedCells, cellsEq] at represents
  obtain ⟨replaced, replacedEq, replacedRepresents, bitOffsetEq⟩ :=
    mergeRow_ok mergeable represents addressable inside several
  refine ⟨replaced, replacedEq, ?_, ?_⟩
  · rw [mergedCells, List.map_append, List.map_append, List.map_singleton, List.map_singleton,
      mergedEq]
    exact replacedRepresents
  · rw [bitOffsetEq, merged.bitOffset_eq]

variable (order : TimeOrder)

/-- Adding a range keeps the column merged. -/
theorem addRun_ok (mergeable : Mergeable times type source nulls) {front rest : List Nat}
    {first count : Nat} {target : Column} (merged : MergedTo times type source front target)
    (rowsEq : sortedRows times = front ++ (List.range' first count ++ rest))
    (nonempty : 0 < count)
    (distinct : ((List.range' first count).map (timeAt times)).IsChain (· ≠ ·))
    (fewer : count < times.length) :
    ∃ longer,
      addRun (order.rebuild times) source type nulls target
          ⟨front.length, first, first + count⟩ = .ok longer ∧
        MergedTo times type source (front ++ List.range' first count) longer := by
  have inside := range_inside rowsEq nonempty
  obtain ⟨more, rfl⟩ := Nat.exists_eq_add_of_le' nonempty
  have headEq : sortedRows times =
      front ++ first :: (List.range' (first + 1) more ++ rest) := by
    rw [rowsEq, List.range'_succ, List.cons_append]
  have repeatsIff := TimeOrder.repeatsTime_rebuild times order headEq
  rw [addRun]
  split
  next repeats =>
    obtain ⟨replaced, replacedEq, replacedMerged⟩ :=
      mergeRow_mergedTo mergeable merged headEq (repeatsIff.mp repeats)
    have nextRows : sortedRows times =
        (front ++ [first]) ++ (List.range' (first + 1) more ++ rest) := by
      rw [headEq, List.append_assoc, List.singleton_append]
    rw [List.range'_succ, List.map_cons] at distinct
    have nextNew : 0 < more → ((front ++ [first]).map (timeAt times)).getLast? ≠
        some (timeAt times (first + 1)) := by
      intro positive same
      obtain ⟨others, rfl⟩ := Nat.exists_eq_add_of_le' positive
      rw [List.map_append, List.map_singleton, List.getLast?_concat, Option.some.injEq] at same
      rw [List.range'_succ, List.map_cons] at distinct
      exact (List.isChain_cons_cons.mp distinct).1 same
    obtain ⟨longer, longerEq, longerMerged⟩ :=
      appendRange_mergedTo mergeable replacedMerged nextRows distinct.tail nextNew
        (by omega) (by omega)
    have nextEnd : first + (more + 1) = first + 1 + more := by omega
    refine ⟨longer, ?_, ?_⟩
    · rw [replacedEq, nextEnd]
      exact longerEq
    · rw [List.append_assoc, List.singleton_append, ← List.range'_succ] at longerMerged
      exact longerMerged
  next starts =>
    have new : 0 < more + 1 →
        (front.map (timeAt times)).getLast? ≠ some (timeAt times first) := by
      intro _ last
      exact starts (repeatsIff.mpr last)
    exact appendRange_mergedTo mergeable merged rowsEq distinct new inside fewer

/-! ## All ranges -/

/-- Adding ranges keeps the column merged, once it has rows. -/
theorem foldlM_addRun_ok (mergeable : Mergeable times type source nulls) {position : Nat}
    {ranges : List RowRange} {front rows : List Nat} {target : Column}
    (tiles : TimeOrder.Tiles times position ranges rows) (positionEq : position = front.length)
    (rowsEq : sortedRows times = front ++ rows) (started : front ≠ [])
    (merged : MergedTo times type source front target) :
    ∃ longer,
      ranges.foldlM (addRun (order.rebuild times) source type nulls) target = .ok longer ∧
        MergedTo times type source (front ++ rows) longer := by
  induction tiles generalizing front target with
  | nil =>
    refine ⟨target, rfl, ?_⟩
    rw [List.append_nil]
    exact merged
  | @cons position first count ranges rows nonempty distinct rest ih =>
    subst positionEq
    have total := TimeOrder.length_sortedRows times
    rw [rowsEq, List.length_append, List.length_append, List.length_range'] at total
    have someFront := List.length_pos_of_ne_nil started
    obtain ⟨longer, longerEq, longerMerged⟩ :=
      addRun_ok order mergeable merged rowsEq nonempty distinct (by omega)
    have restPosition : front.length + count = (front ++ List.range' first count).length := by
      rw [List.length_append, List.length_range']
    rw [← List.append_assoc] at rowsEq
    obtain ⟨result, resultEq, resultMerged⟩ :=
      ih restPosition rowsEq (List.append_ne_nil_of_left_ne_nil started _) longerMerged
    refine ⟨result, ?_, ?_⟩
    · rw [List.foldlM_cons, longerEq]
      exact resultEq
    · rw [← List.append_assoc]
      exact resultMerged

/-- A column that holds for each timestamp what the rows of the source become, that takes no more
room than the source, and whose bitmap has no byte to spare. It is packed if the source is. -/
structure MergedFrom (times : List Int64) (storage : Storage) (source merged : Column) :
    Prop where
  consistent : merged.Consistent storage
  cells_eq : merged.cells storage =
    (TimeOrder.withoutRepeats ((sortedRows times).map (timeAt times))).map
      (Cell.mergedAt times (source.cells storage))
  bitOffset_le : merged.bitOffset.toInt ≤ source.bitOffset.toInt
  values_le : merged.values.length ≤ source.values.length
  trimmed_eq : merged.trimmed = merged
  represents : ∀ cells, source.Represents storage cells →
    merged.Represents storage (merged.cells storage)

theorem MergedTo.mergedFrom (mergeable : Mergeable times type source nulls) {target : Column}
    (merged : MergedTo times type source (sortedRows times) target) :
    MergedFrom times type.storage source target := by
  have valuesLe := merged.values_le mergeable (List.append_nil (sortedRows times)).symm
  have addressable := mergeable.addressable.mono valuesLe
  exact {
    consistent := merged.represents.consistent addressable
    cells_eq := by
      rw [merged.represents.cells_eq addressable]
      exact mergedCells_sortedRows mergeable
    bitOffset_le := by
      rw [merged.bitOffset_eq]
      exact mergeable.consistent.headerValid.bitOffset_nonneg
    values_le := valuesLe
    trimmed_eq := merged.represents.trimmed_eq merged.bitOffset_eq
    represents := by
      intro _ _
      rw [merged.represents.cells_eq addressable]
      exact merged.represents }

/-- Rows in order and without repeats are the result as they are. -/
theorem mergedFrom_trimmed (mergeable : Mergeable times type source nulls)
    (nonempty : 0 < times.length) (rowsEq : sortedRows times = List.range' 0 times.length)
    (distinct : ((List.range' 0 times.length).map (timeAt times)).IsChain (· ≠ ·)) :
    MergedFrom times type.storage source source.trimmed := by
  have rowCountEq := mergeable.rowCount_eq
  have someRows : 0 < source.rowCount.toInt := by omega
  have offsetNonneg := mergeable.consistent.headerValid.bitOffset_nonneg
  have rowsSplit : sortedRows times = [] ++ (List.range' 0 times.length ++ []) := by
    rw [rowsEq, List.append_nil, List.nil_append]
  have merged := mergedCells_append_range type.storage source rowsSplit distinct fun _ => nofun
  rw [List.nil_append, ← rowsEq, mergedCells_sortedRows mergeable] at merged
  exact {
    consistent := Column.consistent_trimmed mergeable.consistent.headerValid someRows mergeable.consistent
    cells_eq := by
      rw [Column.cells_trimmed mergeable.consistent.headerValid someRows, merged,
        Column.cells_eq_cellsFrom, mergeable.toNat_rowCount]
      rfl
    bitOffset_le := by
      rw [Column.bitOffset_trimmed]
      omega
    values_le := Nat.le_refl _
    trimmed_eq := Column.trimmed_trimmed mergeable.consistent.headerValid someRows
    represents := by
      intro cells represents
      rw [Column.cells_trimmed mergeable.consistent.headerValid someRows,
        represents.cells_eq mergeable.addressable]
      exact Column.represents_trimmed mergeable.consistent.headerValid someRows represents }

/-- The first range of a rebuilt order that covers all rows starts with the first row. -/
private theorem first_eq_zero {first : Nat} (nonempty : 0 < times.length)
    (rowsEq : sortedRows times = List.range' first times.length) : first = 0 := by
  have zeroMem := (TimeOrder.mem_sortedRows times).mpr nonempty
  rw [rowsEq, List.mem_range'_1] at zeroMem
  omega

/-- A single range of all rows is copied as a whole. -/
private theorem addRun_whole (mergeable : Mergeable times type source nulls)
    (nonempty : 0 < times.length) :
    addRun (order.rebuild times) source type nulls .empty ⟨0, 0, 0 + times.length⟩ =
      .ok source.trimmed := by
  have rowCountEq := mergeable.rowCount_eq
  have noTimeBefore : ¬(order.rebuild times).repeatsTime 0 = true := by
    rw [TimeOrder.repeatsTime_zero]
    exact Bool.false_ne_true
  have someRows : 0 < 0 + times.length := by omega
  rw [addRun, if_neg noTimeBefore, appendRange, if_pos someRows, Nat.zero_add,
    ← mergeable.toNat_rowCount]
  exact Column.appendRows_eq_trimmed mergeable.kept (by omega) rfl nulls

/-- A column whose rows are in order and repeat no timestamp is copied as a whole. -/
theorem mergeColumn_of_ascending (mergeable : Mergeable times type source nulls)
    (nonempty : 0 < times.length) (ascending : times.Pairwise (· < ·)) :
    mergeColumn (order.rebuild times) source type nulls .empty = .ok source.trimmed := by
  have whole := addRun_whole order mergeable nonempty
  rw [Nat.zero_add] at whole
  rw [mergeColumn, TimeOrder.rowRanges_of_ascending order ascending nonempty, List.foldlM_cons,
    whole]
  rfl

/-- Merging a column succeeds, whatever the order held before. -/
theorem mergeColumn_ok (mergeable : Mergeable times type source nulls)
    (nonempty : 0 < times.length) :
    ∃ merged, mergeColumn (order.rebuild times) source type nulls .empty = .ok merged ∧
      MergedFrom times type.storage source merged := by
  have tiles := TimeOrder.tiles_rebuild times order
  have total := TimeOrder.length_sortedRows times
  rw [mergeColumn]
  generalize rangesEq : (order.rebuild times).rowRanges = ranges at tiles
  generalize rowsEq : sortedRows times = rows at tiles
  cases tiles with
  | nil =>
    rw [rowsEq, List.length_nil] at total
    omega
  | @cons _ first count ranges rest someRows distinct tiles =>
    rw [Nat.zero_add] at tiles
    rw [rowsEq, List.length_append, List.length_range'] at total
    by_cases whole : count = times.length
    · subst whole
      have noRest : rest = [] := List.length_eq_zero_iff.mp (by omega)
      rw [noRest] at tiles rowsEq
      rw [List.append_nil] at rowsEq
      have firstZero := first_eq_zero nonempty rowsEq
      rw [firstZero] at rowsEq distinct ⊢
      refine ⟨source.trimmed, ?_, mergedFrom_trimmed mergeable nonempty rowsEq distinct⟩
      rw [tiles.ranges_eq_nil rfl, List.foldlM_cons, addRun_whole order mergeable nonempty]
      rfl
    · have rowsSplit : sortedRows times = [] ++ (List.range' first count ++ rest) := by
        rw [rowsEq, List.nil_append]
      obtain ⟨target, targetEq, merged⟩ :=
        addRun_ok order mergeable mergedTo_empty rowsSplit someRows distinct (by omega)
      rw [List.nil_append] at merged
      have started : List.range' first count ≠ [] :=
        (List.range'_ne_nil_iff first).mpr (Nat.ne_of_gt someRows)
      obtain ⟨result, resultEq, resultMerged⟩ :=
        foldlM_addRun_ok order mergeable tiles List.length_range'.symm rowsEq started merged
      rw [← rowsEq] at resultMerged
      refine ⟨result, ?_, resultMerged.mergedFrom mergeable⟩
      rw [List.foldlM_cons]
      exact (congrArg (· >>= _) targetEq).trans resultEq

end Columnar.Sorter
