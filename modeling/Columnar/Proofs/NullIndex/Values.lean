import Columnar.Proofs.Column.Guarded
import Columnar.Proofs.Column.GuardedSlice
import Columnar.Proofs.NullIndex

/-!
# Where the present values lie

The present values of a fixed-width column lie in row order, so the rank of a present row is the
place of its value.  An index that is rebuilt for the column takes each row there, whatever it held
of an earlier column (`rebuild?_locates`).

A rebuild does not clear the entries that it keeps.  It goes through all the same because each
entry is computed from the one before it, which has been written by then (`rebuild?_eq`).
-/

namespace Columnar

variable {width : Nat} {cells : List Cell} {column : Column}

/-! ## Columns of fixed-width values -/

/-- A column of fixed-width values is the packed form of a list of cells. Its null count agrees
with its bits, and the bitmap may have bytes to spare. -/
structure Column.Packs (width : Nat) (cells : List Cell) (column : Column) : Prop
    extends Counted column where
  rowCount_eq : column.rowCount.toInt = cells.length
  validity_bit : ∀ (row : Nat) (cell : Cell), cells[row]? = some cell →
    Bitmap.bit column.validity (column.bitIndex row) = cell.isSome
  values_eq : column.values = Cell.packed cells
  holds : ∀ cell ∈ cells, (Storage.packed width).Holds cell

/-- Every well-formed column of fixed-width values is the packed form of its cells. -/
theorem Column.Consistent.packs (consistent : column.Consistent (.packed width)) :
    column.Packs width (column.cells (.packed width)) where
  toCounted := consistent.sound.toCounted
  rowCount_eq := by
    have nonneg := consistent.headerValid.nullCount_nonneg
    have counted := consistent.headerValid.nullCount_le
    rw [cells, List.length_map, List.length_range, Int.toNat_of_nonneg (by omega)]
  validity_bit := by
    intro row cell cellAtRow
    rw [cells, List.getElem?_map, Option.map_eq_some_iff] at cellAtRow
    obtain ⟨other, otherAt, rfl⟩ := cellAtRow
    obtain ⟨inside, rfl⟩ := List.getElem?_eq_some_iff.mp otherAt
    rw [List.length_range] at inside
    have null := column.isNull_cellAt (.packed width) row
    rw [consistent.isNull_eq inside, ← Option.not_isSome] at null
    rw [List.getElem_range, Bool.not_inj null]
  values_eq := by
    have all := consistent.packed_cellsFrom (Nat.le_of_eq (Nat.zero_add _))
    have firstStart : column.valueStart (.packed width) 0 = 0 := Nat.zero_mul width
    rw [Nat.zero_add, consistent.sound.valueStart_rowCount, firstStart, Bytes.slice_zero_length,
      ← cells_eq_cellsFrom] at all
    exact all.symm
  holds := by
    intro cell member
    obtain ⟨row, rowMember, rfl⟩ := List.mem_map.mp member
    exact consistent.holds_cellAt Storage.noConfusion (List.mem_range.mp rowMember)

namespace Column.Packs

variable (packs : column.Packs width cells)
include packs

theorem isNull_eq {row : Nat} {cell : Cell} (cellAtRow : cells[row]? = some cell) :
    column.isNull row = cell.isNone := by
  obtain ⟨inside, -⟩ := List.getElem?_eq_some_iff.mp cellAtRow
  have rowCountEq := packs.rowCount_eq
  rw [packs.toCounted.isNull_eq (by omega), packs.validity_bit row cell cellAtRow, Option.not_isSome]

theorem presentBefore_eq {row : Nat} (rowLe : row ≤ cells.length) :
    column.presentBefore row = (cells.take row).countP Option.isSome :=
  presentBefore_eq_countP (fun _ _ cellAtRow => packs.isNull_eq cellAtRow) rowLe

theorem nullsBefore_eq {row : Nat} (rowLe : row ≤ cells.length) :
    column.nullsBefore row = Cell.nulls (cells.take row) := by
  have rows := column.nullsBefore_add_presentBefore row
  have listed := Cell.countP_isSome_add_nulls (cells.take row)
  rw [packs.presentBefore_eq rowLe] at rows
  rw [List.length_take_of_le rowLe] at listed
  omega

theorem toNat_rowCount : column.rowCount.toInt.toNat = cells.length := by
  rw [packs.rowCount_eq, Int.toNat_natCast]

theorem nullCount_eq_nulls : column.nullCount.toInt = Cell.nulls cells := by
  have counted : (column.nullsBefore column.rowCount.toInt.toNat : Int) = column.nullCount.toInt :=
    packs.nullRows_eq
  rw [packs.toNat_rowCount, packs.nullsBefore_eq (Nat.le_refl _), List.take_length] at counted
  exact counted.symm

/-- A present value lies behind as many values as there are present rows before its row. -/
theorem range?_values {row : Nat} {value : Bytes} (cellAtRow : cells[row]? = some (some value)) :
    Bytes.range? (column.presentBefore row * width : Nat)
      (column.presentBefore row * width + width : Nat) column.values = some value := by
  obtain ⟨inside, -⟩ := List.getElem?_eq_some_iff.mp cellAtRow
  have nextLe : column.presentBefore row + 1 ≤ cells.countP Option.isSome := by
    have mono := column.presentBefore_mono (Nat.succ_le_of_lt inside)
    rw [presentBefore_succ, packs.isNull_eq cellAtRow, Option.isNone_some,
      if_neg Bool.false_ne_true, packs.presentBefore_eq (Nat.le_refl _), List.take_length] at mono
    exact mono
  have stopLe : column.presentBefore row * width + width ≤ column.values.length := by
    rw [packs.values_eq, Represents.length_packed packs.holds, ← Nat.succ_mul]
    exact Nat.mul_le_mul_right width nextLe
  rw [Bytes.range?_eq (Nat.le_add_right _ _) stopLe, packs.values_eq,
    packs.presentBefore_eq (Nat.le_of_lt inside),
    Represents.slice_packed_of_holds packs.holds cellAtRow]

end Column.Packs

namespace NullIndex

/-! ## Rebuilding over earlier entries -/

/-- Behind the first row the numbers of nulls follow from each other. -/
theorem nullsBefore?_eq (valid : column.HeaderValid) (indexable : column.Indexable)
    {counts : List Int} {row : Nat} (inside : (row : Int) < column.rowCount.toInt)
    (earlierAt : counts[row]? = some (column.nullsBefore row : Int)) :
    nullsBefore? column counts (row + 1) = some (column.nullsBefore (row + 1) : Int) := by
  have rowCountLt := column.rowCount.toInt_lt
  have all := column.nullsBefore_add_presentBefore row
  rw [nullsBefore?, Nat.add_sub_cancel, earlierAt, Guarded.length?_eq (by omega)]
  simp only [Option.bind_eq_bind, Option.bind_some,
    Column.isNull?_of_indexable valid indexable inside]
  rw [Column.nullsBefore_succ]
  cases column.isNull row with
  | true => exact Guarded.int?_eq (by omega) (by omega)
  | false => rfl

/-- Entries that start with zero are overwritten by the numbers of nulls. An entry is read only
when it has been written. -/
theorem fillFrom?_nullsBefore? (valid : column.HeaderValid) (indexable : column.Indexable)
    {counts : List Int} {size : Nat} (sizeEq : (size : Int) = column.rowCount.toInt + 1)
    (lengthEq : counts.length = size) (firstAt : counts[0]? = some 0) :
    Guarded.fillFrom? (nullsBefore? column) 1 (size - 1) counts =
      some (runningCounts column 0 0 size) := by
  have nonneg := valid.nullCount_nonneg
  have rows := valid.nullCount_le
  have frontEq : counts.take 1 = (List.range 1).map fun row => (column.nullsBefore row : Int) := by
    rw [List.take_add_one, List.take_zero, firstAt]
    rfl
  rw [runningCounts_eq]
  apply Guarded.fillFrom?_eq _ lengthEq (by omega) frontEq
  intro counts next _ behind inside written
  obtain ⟨row, rfl⟩ := Nat.exists_eq_add_of_le' behind
  apply nullsBefore?_eq valid indexable (by omega)
  rw [← List.getElem?_take_of_lt (Nat.lt_succ_self row), written, List.getElem?_map,
    List.getElem?_range (Nat.lt_succ_self row)]
  rfl

theorem rebuild?_eq (valid : column.HeaderValid) (indexable : column.Indexable)
    (index : NullIndex) {size : Nat} (sizeEq : (size : Int) = column.rowCount.toInt + 1)
    (sizeLt : size < 2 ^ 31) :
    index.rebuild? column size = some (index.rebuild column size) := by
  rw [rebuild?, rebuild, start, Guarded.length?_eq sizeLt, Option.bind_eq_bind, Option.bind_some]
  by_cases noNulls : column.nullCount = 0
  · simp only [noNulls, Int32.toInt_zero, if_true]
    rfl
  · have nonneg := valid.nullCount_nonneg
    have rows := valid.nullCount_le
    have sizePos : 0 < size := by omega
    have positionsPos : 0 < Int32.ofNat size := by
      rw [Int32.lt_iff_toInt_lt, Int32.toInt_ofNat_of_lt sizeLt, Int32.toInt_zero]
      omega
    have lengthEq : (resize 0 size index.before).length = size := length_resize _ _ _
    have filled := fillFrom?_nullsBefore? valid indexable sizeEq
      ((List.length_set).trans lengthEq)
      (List.getElem?_set_self (Nat.lt_of_lt_of_eq sizePos lengthEq.symm))
    rw [if_neg noNulls, if_neg noNulls, if_pos positionsPos,
      if_neg (mt Column.toInt_eq_zero_iff.mp noNulls), filled]
    rfl

/-- An index is not rebuilt if a row whose null has to be counted cannot be looked up. -/
theorem rebuild?_eq_none_of_isNull? (someNulls : column.nullCount ≠ 0) {row size : Nat}
    (missing : column.isNull? (Int32.ofNat row) = none) (inside : row + 1 < size)
    (index : NullIndex) : index.rebuild? column size = none := by
  have noCount (counts : List Int) : nullsBefore? column counts (row + 1) = none := by
    rw [nullsBefore?, Nat.add_sub_cancel]
    cases counts[row]? with
    | none => rfl
    | some nulls =>
      cases earlier : Guarded.length? row with
      | none => rfl
      | some word =>
        have wordEq : word = Int32.ofNat row := by
          have value := Guarded.length?_eq_some_iff.mp earlier
          have wordLt := word.toInt_lt
          apply Int32.toInt_inj.mp
          rw [value, Int32.toInt_ofNat_of_lt (by omega)]
        simp only [wordEq, missing, Option.bind_eq_bind, Option.bind_some, Option.bind_none]
  have stopped := Guarded.fillFrom?_eq_none noCount (Nat.le_add_left 1 row)
    (show row + 1 < 1 + (size - 1) by omega)
  rw [rebuild?]
  cases Guarded.length? size with
  | none => rfl
  | some positions =>
    rw [Option.bind_eq_bind, Option.bind_some, if_neg someNulls, stopped]
    split <;> rfl

theorem rebuild?_eq_none {size : Nat} (sizeGe : 2 ^ 31 ≤ size) (column : Column)
    (index : NullIndex) : index.rebuild? column size = none := by
  rw [rebuild?, Guarded.length?_eq_none_iff.mpr sizeGe]
  rfl

/-! ## Locating values -/

/-- The index holds the nulls in front of each cell, and takes each row to the place of its value
among the present ones. -/
structure Locates (width : Nat) (cells : List Cell) (column : Column) (index : NullIndex) : Prop
    extends Counts cells index where
  total_eq_nullCount : index.total = column.nullCount.toInt
  length_before : 0 < index.total → index.before.length = cells.length + 1
  rank_mono : ∀ first last : Nat, first ≤ last → last ≤ cells.length →
    index.rank first ≤ index.rank last
  rank_nonneg : ∀ row : Nat, row ≤ cells.length → 0 ≤ index.rank row
  rank_le : ∀ row : Nat, row ≤ cells.length →
    index.rank row ≤ cells.length - column.nullCount.toInt
  value_at : ∀ (row : Nat) (value : Bytes), cells[row]? = some (some value) →
    Bytes.range? (index.rank row * width) (index.rank row * width + width) column.values =
      some value

theorem counts_rebuild (packs : column.Packs width cells) (index : NullIndex) :
    (index.rebuild column (cells.length + 1)).Counts cells := by
  have nullCountEq := packs.nullCount_eq_nulls
  rw [rebuild]
  split
  next noNulls =>
    rw [noNulls, Int32.toInt_zero] at nullCountEq
    exact ⟨nullCountEq, fun positive => absurd positive (Int.lt_irrefl 0)⟩
  next someNulls =>
    refine ⟨nullCountEq, fun _ row rowLe => ?_⟩
    rw [getElem?_runningCounts_zero (Nat.lt_succ_of_le rowLe), packs.nullsBefore_eq rowLe]

theorem locates_rebuild (packs : column.Packs width cells) (index : NullIndex) :
    (index.rebuild column (cells.length + 1)).Locates width cells column := by
  have ranks := ranks_rebuild packs.headerValid index
  rw [Ranks, packs.toNat_rowCount] at ranks
  have counts := counts_rebuild packs index
  exact {
    toCounts := counts
    total_eq_nullCount := by rw [counts.total_eq, packs.nullCount_eq_nulls]
    length_before := by
      rw [rebuild]
      split
      next => exact fun positive => absurd positive (Int.lt_irrefl 0)
      next => exact fun _ => length_runningCounts column 0 0 _
    rank_mono := by
      intro first last ordered lastLe
      rw [ranks first (Nat.le_trans ordered lastLe), ranks last lastLe]
      exact Int.ofNat_le.mpr (column.presentBefore_mono ordered)
    rank_nonneg := by
      intro row rowLe
      rw [ranks row rowLe]
      exact Int.natCast_nonneg _
    rank_le := by
      intro row rowLe
      have mono := column.presentBefore_mono rowLe
      have all := packs.presentBefore_rowCount
      rw [packs.toNat_rowCount, packs.rowCount_eq] at all
      rw [ranks row rowLe, ← all]
      exact Int.ofNat_le.mpr mono
    value_at := by
      intro row value cellAtRow
      obtain ⟨inside, -⟩ := List.getElem?_eq_some_iff.mp cellAtRow
      rw [ranks row (Nat.le_of_lt inside), ← Int.natCast_mul, ← Int.natCast_add]
      exact packs.range?_values cellAtRow }

/-- An index with any content is rebuilt for a column of fixed-width values, and then takes each
present row to its value. -/
theorem rebuild?_locates (packs : column.Packs width cells)
    (bitsFit : column.bitOffset.toInt + column.rowCount.toInt < 2 ^ 31)
    (sizeLt : cells.length + 1 < 2 ^ 31) (index : NullIndex) :
    index.rebuild? column (cells.length + 1) = some (index.rebuild column (cells.length + 1)) ∧
      (index.rebuild column (cells.length + 1)).Locates width cells column := by
  have sizeEq : ((cells.length + 1 : Nat) : Int) = column.rowCount.toInt + 1 := by
    rw [packs.rowCount_eq, Int.natCast_add, Int.natCast_one]
  exact ⟨rebuild?_eq packs.headerValid (.inr (Int.le_of_lt bitsFit)) index sizeEq sizeLt,
    locates_rebuild packs index⟩

/-- Five truth values, two of them null, from the fourth bit on, with a byte of the bitmap to
spare. -/
def fiveBooleans : Column :=
  ⟨5, 2, 3, [1, 0, 1], [201, 255], []⟩

theorem fiveBooleans_packs : fiveBooleans.Packs 1 [some [1], none, none, some [0], some [1]] := by
  have wellFormed : fiveBooleans.WellFormed .boolean := by decide
  exact ((Column.wellFormed_iff .boolean fiveBooleans).mp wellFormed).packs

theorem rebuild?_fiveBooleans :
    fiveBooleans.Packs 1 [some [1], none, none, some [0], some [1]] ∧
      fiveBooleans.bitOffset.toInt + fiveBooleans.rowCount.toInt < 2 ^ 31 ∧
      rebuild? fiveBooleans 6 ⟨9, [7, 7, 7]⟩ = some ⟨2, [0, 0, 1, 2, 2, 2]⟩ ∧
      Locates 1 [some [1], none, none, some [0], some [1]] fiveBooleans
        ⟨2, [0, 0, 1, 2, 2, 2]⟩ := by
  have bitsFit : fiveBooleans.bitOffset.toInt + fiveBooleans.rowCount.toInt < 2 ^ 31 := by decide
  exact ⟨fiveBooleans_packs, bitsFit,
    rebuild?_locates fiveBooleans_packs bitsFit (by decide) ⟨9, [7, 7, 7]⟩⟩

/-! ## Indices without room -/

/-- A column of null rows only, with the bits of a bitmap of clear bytes. -/
def allNull (bitOffset : Int32) (rows bytes : Nat) : Column :=
  ⟨Int32.ofNat rows, Int32.ofNat rows, bitOffset, [], List.replicate bytes 0, []⟩

theorem packs_allNull {bitOffset : Int32} {rows bytes : Nat} (nonneg : 0 ≤ bitOffset.toInt)
    (rowsLt : rows < 2 ^ 31) (covered : bitOffset.toInt + rows ≤ 8 * (bytes : Int))
    (width : Nat) : (allNull bitOffset rows bytes).Packs width (List.replicate rows none) := by
  have rowsValue : (Int32.ofNat rows).toInt = rows := Int32.toInt_ofNat_of_lt rowsLt
  have allClear : (allNull bitOffset rows bytes).clearRows = rows := by
    simp only [Column.clearRows, allNull, rowsValue, Int.toNat_natCast,
      Bitmap.bit_replicate_zero, Bool.not_false, List.countP_true, List.length_range]
  have noBytes : Cell.packed (List.replicate rows none) = [] := by
    apply List.flatMap_eq_nil_iff.mpr
    intro cell member
    rw [List.eq_of_mem_replicate member]
    rfl
  exact {
    headerValid := {
      nullCount_nonneg := by
        rw [allNull, rowsValue]
        exact Int.natCast_nonneg rows
      nullCount_le := Int.le_refl _
      bitOffset_nonneg := nonneg
      validity_covers := by
        intro _
        simp only [allNull, rowsValue, List.length_replicate]
        exact covered }
    nullCount_eq := by rw [allClear, allNull, rowsValue]
    rowCount_eq := by rw [allNull, rowsValue, List.length_replicate]
    validity_bit := by
      intro row cell cellAt
      rw [List.eq_of_mem_replicate (List.mem_of_getElem? cellAt)]
      exact Bitmap.bit_replicate_zero bytes _
    values_eq := noBytes.symm
    holds := by
      intro cell member
      rw [List.eq_of_mem_replicate member]
      trivial }

/-- As many null rows as a column can have. One entry more is not a number of entries. -/
theorem rebuild?_allNull :
    (allNull 0 (2 ^ 31 - 1) (2 ^ 28)).Packs 8 (List.replicate (2 ^ 31 - 1) none) ∧
      (allNull 0 (2 ^ 31 - 1) (2 ^ 28)).bitOffset.toInt +
        (allNull 0 (2 ^ 31 - 1) (2 ^ 28)).rowCount.toInt < 2 ^ 31 ∧
      ∀ index : NullIndex,
        index.rebuild? (allNull 0 (2 ^ 31 - 1) (2 ^ 28))
          ((List.replicate (2 ^ 31 - 1) (none : Option Bytes)).length + 1) = none := by
  refine ⟨packs_allNull (by decide) (by decide) (by decide) 8, by decide, ?_⟩
  intro index
  apply rebuild?_eq_none
  rw [List.length_replicate]
  decide

end NullIndex

end Columnar
