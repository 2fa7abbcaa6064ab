import Columnar.Proofs.NullIndex.Values

/-!
# What an accepted null count says

A column of fixed-width values says three times how many of its rows are null: in its header, in
its bitmap and, by what is missing, in its values.  The layout checks compare the header with the
values, and neither of them with the bitmap.

So the null count of an accepted column is the number of its null rows only where the bitmap
agrees, or where the count is zero and the bitmap is not looked at (`nullRows?_iff_of_accepted`).
The same condition decides whether the null index of the column leads behind the last of its
values and not past them.  Where the bitmap is looked at, the indices of its bits have to be words.
-/

namespace Columnar

theorem ValueType.width_pos {type : ValueType} {width : Nat}
    (fixed : type.storage = .packed width) : 0 < width := by
  rw [storage] at fixed
  split at fixed <;> cases fixed <;> decide

namespace Column

variable {type : ValueType} {column : Column}

/-- A positive null count leaves the bitmap to decide which rows are null. -/
theorem HeaderValid.nullRows_eq (valid : column.HeaderValid) :
    column.nullRows = if column.nullCount = 0 then 0 else column.clearRows := by
  split
  next noNulls => exact valid.nullsBefore_eq_zero noNulls (Nat.le_refl _)
  next someNulls =>
    rw [nullRows, clearRows]
    apply List.countP_congr
    intro row member
    rw [isNull, if_neg (valid.not_behind (List.mem_range.mp member)), if_neg someNulls]

theorem HeaderValid.nullRows_eq_nullCount_iff (valid : column.HeaderValid) :
    (column.nullRows : Int) = column.nullCount.toInt ↔
      column.nullCount = 0 ∨ (column.clearRows : Int) = column.nullCount.toInt := by
  rw [valid.nullRows_eq]
  split
  next noNulls => simp [noNulls]
  next someNulls => simp [someNulls]

/-- Behind the last row the null index has counted all null rows. -/
theorem HeaderValid.rank_rowCount (valid : column.HeaderValid) (nulls : NullIndex) :
    (nulls.rebuild column (column.rowCount.toInt.toNat + 1)).rank column.rowCount.toInt.toNat =
      column.rowCount.toInt - column.nullRows := by
  have rank := NullIndex.ranks_rebuild valid nulls column.rowCount.toInt.toNat (Nat.le_refl _)
  have split : column.nullRows + column.presentBefore column.rowCount.toInt.toNat =
      column.rowCount.toInt.toNat := column.nullsBefore_add_presentBefore _
  have nullCountNonneg := valid.nullCount_nonneg
  have nullCountLe := valid.nullCount_le
  omega

/-- The null rows can be counted exactly if each of them can be looked up. -/
theorem HeaderValid.nullRows?_eq (valid : column.HeaderValid) :
    column.nullRows? = if column.Indexable then some column.nullRows else none := by
  rw [nullRows?]
  split
  next indexable =>
    rw [nullRowsFrom?_eq, nullRows, List.range_eq_range']
    intro row _ before
    exact isNull?_of_indexable valid indexable (by omega)
  next overflows =>
    obtain ⟨row, inside, missing⟩ := exists_isNull?_eq_none valid overflows
    exact nullRowsFrom?_eq_none missing (Nat.zero_le row) (by omega)

/-- The null index is rebuilt under the same condition, if its entries can be counted. -/
theorem HeaderValid.rebuild?_eq (valid : column.HeaderValid)
    (rowsLt : column.rowCount.toInt + 1 < 2 ^ 31) (nulls : NullIndex) :
    nulls.rebuild? column (column.rowCount.toInt.toNat + 1) =
      if column.Indexable then some (nulls.rebuild column (column.rowCount.toInt.toNat + 1))
      else none := by
  have nullsNonneg := valid.nullCount_nonneg
  have nullsLe := valid.nullCount_le
  split
  next indexable => exact NullIndex.rebuild?_eq valid indexable nulls (by omega) (by omega)
  next overflows =>
    obtain ⟨row, inside, missing⟩ := exists_isNull?_eq_none valid overflows
    exact NullIndex.rebuild?_eq_none_of_isNull? (fun noNulls => overflows (.inl noNulls)) missing
      (Nat.succ_lt_succ inside) nulls

/-- The null count of an accepted column is the number of its null rows exactly where these can be
looked up and the count is zero or agrees with the bitmap. For fixed-width values this decides
whether the rank behind the last row leads to the end of the values. -/
theorem nullRows?_iff_of_accepted (accepted : column.layoutError? type = none) :
    (column.nullRows? = some column.nullCount.toInt.toNat ↔
      column.Indexable ∧
        (column.nullCount = 0 ∨ (column.clearRows : Int) = column.nullCount.toInt)) ∧
    ∀ (width : Nat), type.storage = .packed width → column.rowCount.toInt + 1 < 2 ^ 31 →
      ∀ nulls : NullIndex,
        ((∃ (index : NullIndex) (place : Int),
            nulls.rebuild? column (column.rowCount.toInt.toNat + 1) = some index ∧
            index.rank? column.rowCount.toInt.toNat = some place ∧
            place * width = column.values.length) ↔
          column.nullRows? = some column.nullCount.toInt.toNat) := by
  obtain ⟨valid, fit⟩ := (layoutError?_eq_none_iff type column).mp accepted
  have nullsNonneg := valid.nullCount_nonneg
  have countsNulls : column.nullRows? = some column.nullCount.toInt.toNat ↔
      column.Indexable ∧ (column.nullRows : Int) = column.nullCount.toInt := by
    rw [valid.nullRows?_eq]
    split
    next indexable => simp only [Option.some.injEq, indexable, true_and]; omega
    next overflows => simp [overflows]
  refine ⟨?_, ?_⟩
  · rw [countsNulls, valid.nullRows_eq_nullCount_iff]
  · intro width fixed rowsLt nulls
    have widthPos : (0 : Int) < width := Int.natCast_pos.mpr (ValueType.width_pos fixed)
    have length : (column.values.length : Int) =
        width * (column.rowCount.toInt - column.nullCount.toInt) := by
      rw [fixed] at fit
      exact fit
    have found := NullIndex.finds_rebuild valid nulls column.rowCount.toInt.toNat (Nat.le_refl _)
    have rank := NullIndex.rank_of_rank? found
    rw [valid.rank_rowCount] at rank
    rw [← rank] at found
    have reaches : (column.rowCount.toInt - column.nullRows) * width = column.values.length ↔
        (column.nullRows : Int) = column.nullCount.toInt := by
      rw [length, Int.mul_comm, Int.mul_eq_mul_left_iff (Int.ne_of_gt widthPos)]
      omega
    rw [countsNulls, valid.rebuild?_eq rowsLt, ← reaches]
    constructor
    · rintro ⟨index, place, rebuilt, placeAt, stops⟩
      split at rebuilt
      next indexable =>
        rw [← Option.some.inj rebuilt, found] at placeAt
        rw [← Option.some.inj placeAt] at stops
        exact ⟨indexable, stops⟩
      next => cases rebuilt
    · rintro ⟨indexable, stops⟩
      exact ⟨_, _, if_pos indexable, found, stops⟩

/-- One row that is counted as null, is marked as present and has no value. -/
def countedNull : Column :=
  ⟨1, 1, 0, [], [1], []⟩

theorem nullRows?_countedNull :
    countedNull.layoutError? .integer = none ∧
      countedNull.nullRows? ≠ some countedNull.nullCount.toInt.toNat ∧
      ¬∃ (index : NullIndex) (place : Int),
        NullIndex.empty.rebuild? countedNull 2 = some index ∧ index.rank? 1 = some place ∧
          place * 8 = countedNull.values.length := by
  have accepted : countedNull.layoutError? .integer = none := by decide +kernel
  obtain ⟨countsIff, reachesIff⟩ := nullRows?_iff_of_accepted accepted
  have differs : ¬(countedNull.Indexable ∧ (countedNull.nullCount = 0 ∨
      (countedNull.clearRows : Int) = countedNull.nullCount.toInt)) := by
    decide +kernel
  have miscounts := mt countsIff.mp differs
  exact ⟨accepted, miscounts, mt (reachesIff 8 rfl (by decide) NullIndex.empty).mp miscounts⟩

/-- The checks accept a null count that differs from the number of null rows, for every storage. -/
theorem accepted_countedNull :
    (∀ type ∈ [ValueType.integer, .float, .boolean], countedNull.layoutError? type = none) ∧
      (∀ type ∈ [ValueType.string, .tag],
        { countedNull with offsets := [0] }.layoutError? type = none) ∧
      countedNull.nullCount = 1 ∧ countedNull.nullRows? = some 0 ∧
      { countedNull with offsets := [0] }.nullRows? = some 0 := by
  decide +kernel

end Column

end Columnar
