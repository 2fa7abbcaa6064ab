import Columnar.Proofs.Column.Spans

/-!
# Columns that differ in their bitmaps

The bits of a column's rows may stand anywhere in its bitmap, and bits that belong to no row have
no meaning.  Columns that have the same bits for their rows and are equal apart from their bitmaps
have the same cells, and one is well formed if the other is.
-/

namespace Columnar.Column

/-- The columns are equal apart from where the bits of their rows stand. -/
structure SameRows (first second : Column) : Prop where
  first_valid : first.HeaderValid
  second_valid : second.HeaderValid
  rowCount_eq : second.rowCount = first.rowCount
  nullCount_eq : second.nullCount = first.nullCount
  values_eq : second.values = first.values
  offsets_eq : second.offsets = first.offsets
  bit_eq : ∀ row < first.rowCount.toInt.toNat,
    Bitmap.bit second.validity (second.bitIndex row) =
      Bitmap.bit first.validity (first.bitIndex row)

namespace SameRows

variable {storage : Storage} {first second : Column} (same : first.SameRows second)
include same

theorem isNull_eq (row : Nat) : second.isNull row = first.isNull row := by
  by_cases inside : row < first.rowCount.toInt.toNat
  · have secondInside : row < second.rowCount.toInt.toNat := by
      rw [same.rowCount_eq]
      exact inside
    rw [isNull, isNull, if_neg (same.first_valid.not_behind inside),
      if_neg (same.second_valid.not_behind secondInside), same.nullCount_eq,
      same.bit_eq row inside]
  · have behind : first.rowCount.toInt ≤ (row : Int) := by omega
    rw [isNull, isNull, same.rowCount_eq, if_pos (Or.inl behind), if_pos (Or.inl behind)]

theorem clearRows_eq : second.clearRows = first.clearRows := by
  rw [clearRows, clearRows, same.rowCount_eq]
  apply List.countP_congr
  intro row member
  rw [same.bit_eq row (List.mem_range.mp member)]

theorem textAt_eq (row : Nat) : second.textAt row = first.textAt row := by
  rw [textAt, textAt, offsetAt, offsetAt, textEnd, textEnd, same.values_eq, same.offsets_eq]

theorem consistent (wellFormed : first.Consistent storage) : second.Consistent storage where
  headerValid := same.second_valid
  buffersFit := by
    have fit := wellFormed.buffersFit
    by_cases text : storage = .text
    · subst text
      rw [BuffersFit] at fit ⊢
      rw [same.rowCount_eq, same.values_eq, same.offsets_eq]
      exact fit
    · rw [buffersFit_of_ne_text text] at fit ⊢
      rw [same.rowCount_eq, same.nullCount_eq, same.values_eq]
      exact fit
  nullCount_eq := by
    rw [same.nullCount_eq, same.clearRows_eq]
    exact wellFormed.nullCount_eq
  textAt_of_isNull := by
    intro text row inside null
    rw [same.rowCount_eq] at inside
    rw [same.isNull_eq] at null
    rw [same.textAt_eq]
    exact wellFormed.textAt_of_isNull text row inside null

theorem cellAt_eq (storage : Storage) (row : Nat) :
    second.cellAt storage row = first.cellAt storage row := by
  have present : second.presentBefore row = first.presentBefore row := by
    rw [presentBefore, presentBefore]
    congr 1
    funext earlier
    rw [same.isNull_eq]
  have value : second.valueAt storage row = first.valueAt storage row := by
    cases storage with
    | text => exact same.textAt_eq row
    | packed width => rw [valueAt, valueAt, present, same.values_eq]
    | absent => rfl
  rw [cellAt, cellAt, same.isNull_eq, value]

theorem cells_eq (storage : Storage) : second.cells storage = first.cells storage := by
  rw [cells, cells, same.rowCount_eq]
  exact List.map_congr_left fun row _ => same.cellAt_eq storage row

end SameRows

end Columnar.Column
