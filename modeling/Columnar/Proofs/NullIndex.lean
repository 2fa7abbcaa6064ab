import Columnar.NullIndex
import Columnar.Proofs.Column.Spans
import Columnar.Proofs.Guarded

/-!
# Ranks of rows

A null index serves its purpose if it gives every row, and the place behind the last one, the
number of present rows before it.  An index that is rebuilt for a column does so whatever it held
before, and whether or not the column counts its nulls rightly.  The guarded look-up finds the same
ranks (`finds_rebuild`).
-/

namespace Columnar.NullIndex

/-- Every row has the number of present rows before it as its rank. -/
def Ranks (column : Column) (index : NullIndex) : Prop :=
  ∀ row ≤ column.rowCount.toInt.toNat, index.rank row = column.presentBefore row

/-- The guarded look-up finds the rank of every row. -/
def Finds (column : Column) (index : NullIndex) : Prop :=
  ∀ row ≤ column.rowCount.toInt.toNat, index.rank? row = some (column.presentBefore row : Int)

variable {column : Column}

theorem runningCounts_eq (column : Column) (size : Nat) :
    runningCounts column 0 0 size =
      (List.range size).map fun row => (column.nullsBefore row : Int) := by
  apply List.ext_getElem?
  intro row
  by_cases inside : row < size
  · rw [getElem?_runningCounts column 0 row size 0 inside, List.getElem?_map,
      List.getElem?_range inside, Int.zero_add, ← List.range_eq_range']
    rfl
  · rw [List.getElem?_eq_none (by rw [length_runningCounts]; omega),
      List.getElem?_eq_none (by rw [List.length_map, List.length_range]; omega)]

theorem getElem?_runningCounts_zero {row size : Nat} (inside : row < size) :
    (runningCounts column 0 0 size)[row]? = some (column.nullsBefore row : Int) := by
  rw [runningCounts_eq, List.getElem?_map, List.getElem?_range inside, Option.map_some]

/-- What the index held of an earlier column has no part in its ranks. -/
theorem ranks_rebuild (valid : column.HeaderValid) (index : NullIndex) :
    (index.rebuild column (column.rowCount.toInt.toNat + 1)).Ranks column := by
  intro row inside
  have split := column.nullsBefore_add_presentBefore row
  rw [rebuild]
  split
  next noNulls =>
    have noneNull := valid.nullsBefore_eq_zero noNulls inside
    rw [rank_of_total_eq_zero rfl]
    omega
  next someNulls =>
    have positive : 0 < column.nullCount.toInt := by
      have nonneg := valid.nullCount_nonneg
      have different := mt Column.toInt_eq_zero_iff.mp someNulls
      omega
    rw [rank, if_pos positive, Int.toNat_natCast,
      getElem?_runningCounts_zero (Nat.lt_succ_of_le inside), Option.getD_some]
    omega

/-- A rank that is found is the rank. -/
theorem rank_of_rank? {index : NullIndex} {row : Nat} {place : Int}
    (found : index.rank? row = some place) : index.rank row = place := by
  rw [rank?] at found
  rw [rank]
  split at found
  next someNulls =>
    rw [if_pos someNulls, Int.toNat_natCast]
    rw [if_pos (Int.natCast_nonneg row), Int.toNat_natCast] at found
    cases entry : index.before[row]? with
    | none =>
      rw [entry] at found
      cases found
    | some before =>
      rw [entry, Option.bind_eq_bind, Option.bind_some] at found
      exact Guarded.eq_of_int? found
  next noNulls =>
    rw [if_neg noNulls]
    exact Option.some.inj found

theorem Finds.ranks {index : NullIndex} (finds : index.Finds column) : index.Ranks column :=
  fun row inside => rank_of_rank? (finds row inside)

/-- No rank is beyond its row, so it is a word as the row is. -/
theorem finds_rebuild (valid : column.HeaderValid) (index : NullIndex) :
    (index.rebuild column (column.rowCount.toInt.toNat + 1)).Finds column := by
  intro row inside
  have rowCountLt := column.rowCount.toInt_lt
  have parts := column.nullsBefore_add_presentBefore row
  rw [← ranks_rebuild valid index row inside, rebuild]
  split
  next noNulls =>
    rw [rank_of_total_eq_zero rfl]
    rfl
  next someNulls =>
    rw [rank?, rank]
    split
    next =>
      simp only [Int.natCast_nonneg, if_true, Int.toNat_natCast,
        getElem?_runningCounts_zero (Nat.lt_succ_of_le inside), Option.bind_eq_bind,
        Option.bind_some, Option.getD_some]
      exact Guarded.int?_eq (by omega) (by omega)
    next => rfl

/-! ## Counted cells -/

/-- The index holds the number of null cells, and if there are any the number of those in front of
each cell and behind the last. -/
structure Counts (cells : List Cell) (index : NullIndex) : Prop where
  total_eq : index.total = Cell.nulls cells
  before_eq : 0 < index.total → ∀ row ≤ cells.length,
    index.before[row]? = some (Cell.nulls (cells.take row) : Int)

/-- An index that counts the null cells of a column finds the ranks of its rows. -/
theorem Counts.finds {storage : Storage} {index : NullIndex}
    (counts : index.Counts (column.cells storage)) : index.Finds column := by
  intro row inside
  have rowCountLt := column.rowCount.toInt_lt
  have length : (column.cells storage).length = column.rowCount.toInt.toNat := by
    rw [Column.cells, List.length_map, List.length_range]
  have front := column.cellsFrom_eq_slice storage 0 inside
  have split := column.nulls_cellsFrom storage 0 row
  have noneBefore : column.presentBefore 0 = 0 := rfl
  rw [Nat.sub_zero, List.drop_zero] at front
  rw [front, Nat.zero_add, noneBefore, Nat.add_zero] at split
  rw [rank?]
  split
  next someNulls =>
    simp only [Int.natCast_nonneg, if_true, Int.toNat_natCast,
      counts.before_eq someNulls row (by omega), Option.bind_eq_bind, Option.bind_some]
    rw [Guarded.int?_eq (by omega) (by omega)]
    congr 1
    omega
  next noNulls =>
    have total := counts.total_eq
    have fewer : Cell.nulls ((column.cells storage).take row) ≤
        Cell.nulls (column.cells storage) :=
      (List.take_sublist row _).countP_le
    congr 1
    omega

end Columnar.NullIndex
