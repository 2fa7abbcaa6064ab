import Columnar.Column.Guarded
import Columnar.Proofs.Guarded
import Columnar.Proofs.Column.Layout

/-!
# When guarded reading goes through

Behind a valid header the look-up of a row's null can fail in one way only, by an index that
overflows (`isNull?_of_headerValid`).  Behind sound offsets a text is always found
(`OffsetsSound.textAt?_eq`).
-/

namespace Columnar.Column

open Guarded

variable {column : Column}

/-! ## Null rows -/

/-- The bits of all rows have indices that are signed words, or are not read at all. -/
def Indexable (column : Column) : Prop :=
  column.nullCount = 0 ∨ column.bitOffset.toInt + column.rowCount.toInt ≤ 2 ^ 31

instance (column : Column) : Decidable column.Indexable :=
  inferInstanceAs (Decidable (_ ∨ _))

/-- The look-up of a row's bit in a column whose header is valid fails exactly by an overflow: a
bit that has an index has a byte too. -/
theorem isNull?_of_headerValid (valid : column.HeaderValid) {row : Int32} (nonneg : 0 ≤ row)
    (inside : row < column.rowCount) :
    column.isNull? row =
      if column.nullCount ≠ 0 ∧ 2 ^ 31 ≤ column.bitOffset.toInt + row.toInt then none
      else some (column.isNull row.toInt) := by
  rw [Int32.le_iff_toInt_le, Int32.toInt_zero] at nonneg
  rw [Int32.lt_iff_toInt_lt] at inside
  have offsetNonneg := valid.bitOffset_nonneg
  have covered := valid.validity_covers (by omega)
  have rowEq : (row.toInt.toNat : Int) = row.toInt := Int.toNat_of_nonneg nonneg
  have insideNat : row.toInt.toNat < column.rowCount.toInt.toNat := by omega
  have notBehind := valid.not_behind insideNat
  rw [rowEq] at notBehind
  have notBehindWord : ¬(column.rowCount ≤ row ∨ column.validity = []) := by
    rw [Int32.le_iff_toInt_le]
    exact notBehind
  rw [isNull?, isNull, if_neg notBehind, if_neg notBehindWord]
  by_cases noNulls : column.nullCount = 0
  · rw [if_pos noNulls, if_pos noNulls, if_neg fun both => both.1 noNulls]
  rw [if_neg noNulls, if_neg noNulls]
  by_cases overflows : 2 ^ 31 ≤ column.bitOffset.toInt + row.toInt
  · rw [if_pos ⟨noNulls, overflows⟩, add?, word?_eq_none_iff.mpr (Or.inr overflows)]
    rfl
  · rw [if_neg fun both => overflows both.2]
    have lower : -2 ^ 31 ≤ column.bitOffset.toInt + row.toInt := by omega
    obtain ⟨index, indexEq, value⟩ := exists_word? lower (Int.not_le.mp overflows)
    have indexNonneg : 0 ≤ index := by
      rw [Int32.le_iff_toInt_le, Int32.toInt_zero]
      omega
    have position : index.toInt.toNat = column.bitIndex row.toInt := by rw [bitIndex, value]
    have byteInside : column.bitIndex row.toInt / 8 < column.validity.length := by
      rw [bitIndex]
      omega
    rw [add?, indexEq]
    simp only [Option.bind_eq_bind, Option.bind_some, validityByte?, if_pos indexNonneg, position,
      List.getElem?_eq_getElem byteInside, Bitmap.bit, Option.getD_some]
    rfl

/-- If the indices of all bits are signed words, every row can be looked up. -/
theorem isNull?_of_indexable (valid : column.HeaderValid) (indexable : column.Indexable) {row : Nat}
    (inside : (row : Int) < column.rowCount.toInt) :
    column.isNull? (Int32.ofNat row) = some (column.isNull row) := by
  have rowCountLt := column.rowCount.toInt_lt
  have value : (Int32.ofNat row).toInt = row := Int32.toInt_ofNat_of_lt (by omega)
  have nonneg : 0 ≤ Int32.ofNat row := by
    rw [Int32.le_iff_toInt_le, value, Int32.toInt_zero]
    omega
  have insideWord : Int32.ofNat row < column.rowCount := by
    rw [Int32.lt_iff_toInt_lt, value]
    exact inside
  rw [isNull?_of_headerValid valid nonneg insideWord, value, if_neg]
  rintro ⟨someNull, overflows⟩
  rcases indexable with noNulls | reaches
  · exact someNull noNulls
  · omega

/-- A row cannot be looked up if the indices of the bits are looked at and not all of them are
signed words. -/
theorem exists_isNull?_eq_none (valid : column.HeaderValid) (overflows : ¬column.Indexable) :
    ∃ row < column.rowCount.toInt.toNat, column.isNull? (Int32.ofNat row) = none := by
  have someNulls : column.nullCount ≠ 0 := fun noNulls => overflows (.inl noNulls)
  have reaches : ¬column.bitOffset.toInt + column.rowCount.toInt ≤ 2 ^ 31 :=
    fun within => overflows (.inr within)
  have offsetLt := column.bitOffset.toInt_lt
  have rowsLt := column.rowCount.toInt_lt
  obtain ⟨row, rowEq⟩ : ∃ row : Nat, column.rowCount.toInt = (row + 1 : Nat) :=
    ⟨column.rowCount.toInt.toNat - 1, by omega⟩
  have value : (Int32.ofNat row).toInt = row := Int32.toInt_ofNat_of_lt (by omega)
  have nonneg : 0 ≤ Int32.ofNat row := by
    rw [Int32.le_iff_toInt_le, value, Int32.toInt_zero]
    omega
  have inside : Int32.ofNat row < column.rowCount := by
    rw [Int32.lt_iff_toInt_lt, value]
    omega
  refine ⟨row, by omega, ?_⟩
  rw [isNull?_of_headerValid valid nonneg inside, value, if_pos ⟨someNulls, by omega⟩]

/-- Where every row can be looked up, the null rows among them are counted. -/
theorem nullRowsFrom?_eq {row count : Nat}
    (nulls : ∀ index, row ≤ index → index < row + count →
      column.isNull? (Int32.ofNat index) = some (column.isNull index)) :
    column.nullRowsFrom? row count =
      some ((List.range' row count).countP fun (index : Nat) => column.isNull index) := by
  induction count generalizing row with
  | zero => rfl
  | succ count ih =>
    have others := @ih (row + 1) fun index behind before => nulls index (by omega) (by omega)
    rw [nullRowsFrom?, nulls row (Nat.le_refl row) (by omega), others, List.range'_succ,
      List.countP_cons]
    cases column.isNull row <;> rfl

/-- They are not counted if one of the rows cannot be looked up. -/
theorem nullRowsFrom?_eq_none {row count index : Nat}
    (missing : column.isNull? (Int32.ofNat index) = none) (behind : row ≤ index)
    (before : index < row + count) : column.nullRowsFrom? row count = none := by
  induction count generalizing row with
  | zero => omega
  | succ count ih =>
    rw [nullRowsFrom?]
    rcases Nat.eq_or_lt_of_le behind with rfl | later
    · rw [missing]
      rfl
    · rw [ih later (by omega)]
      cases column.isNull? (Int32.ofNat row) <;> rfl

/-! ## Texts -/

/-- A text lies in order in the values if the offsets are sound. -/
theorem OffsetsSound.text_inside (sound : column.OffsetsSound)
    (valuesLt : column.values.length < UInt32.size) {row : Nat}
    (inside : row < column.offsets.length) :
    column.offsetAt row ≤ column.textStop row ∧
      (column.textStop row).toNat ≤ column.values.length := by
  have startLe := sound.bounded column.offsets[row] (List.getElem_mem inside)
  rw [offsetAt, textStop, List.getElem?_eq_getElem inside, Option.getD_some]
  by_cases last : row + 1 < column.offsets.length
  · rw [List.getElem?_eq_getElem last, Option.getD_some]
    exact ⟨List.pairwise_iff_getElem.mp sound.ordered row (row + 1) inside last
      (Nat.lt_succ_self row), sound.bounded _ (List.getElem_mem last)⟩
  · rw [List.getElem?_eq_none (Nat.not_lt.mp last), Option.getD_none, UInt32.le_iff_toNat_le,
      UInt32.toNat_ofNat_of_lt' valuesLt]
    exact ⟨startLe, Nat.le_refl _⟩

/-- The word that ends a text is the number that ends it. -/
theorem toNat_textStop (valuesLt : column.values.length < UInt32.size) (row : Nat) :
    (column.textStop row).toNat = column.textEnd row := by
  rw [textStop, textEnd]
  cases column.offsets[row + 1]? with
  | none => exact UInt32.toNat_ofNat_of_lt' valuesLt
  | some offset => rfl

theorem OffsetsSound.textAt?_eq (sound : column.OffsetsSound)
    (valuesLt : column.values.length < UInt32.size) {row : Nat}
    (inside : row < column.offsets.length) :
    column.textAt? row = some (column.textAt row) := by
  have bounds := sound.text_inside valuesLt inside
  have startEq : column.offsets[row]? = some (column.offsetAt row) := by
    rw [offsetAt, List.getElem?_eq_getElem inside, Option.getD_some]
  rw [UInt32.le_iff_toNat_le] at bounds
  rw [textAt?, startEq, Option.bind_eq_bind, Option.bind_some, Bytes.slice?, if_pos bounds,
    toNat_textStop valuesLt, textAt]

/-- Where every row can be looked up, the texts of a range of rows are found. -/
theorem textsFrom?_eq {row count : Nat}
    (nulls : ∀ index, row ≤ index → index < row + count →
      column.isNull? (Int32.ofNat index) = some (column.isNull index))
    (texts : ∀ index, row ≤ index → index < row + count →
      column.textAt? index = some (column.textAt index)) :
    column.textsFrom? row count =
      some (((List.range' row count).filter fun (index : Nat) => !column.isNull index).map
        column.textAt) := by
  induction count generalizing row with
  | zero => rfl
  | succ count ih =>
    have restEq : column.textsFrom? (row + 1) count =
        some (((List.range' (row + 1) count).filter fun (index : Nat) =>
          !column.isNull index).map column.textAt) := by
      apply ih
      · intro index behind before
        exact nulls index (by omega) (by omega)
      · intro index behind before
        exact texts index (by omega) (by omega)
    have nullEq := nulls row (Nat.le_refl row) (by omega)
    have textEq := texts row (Nat.le_refl row) (by omega)
    rw [textsFrom?, nullEq, restEq, List.range'_succ, List.filter_cons]
    cases null : column.isNull row with
    | true => simp
    | false => simp [textEq]

theorem texts?_eq (valid : column.HeaderValid) (sound : column.OffsetsSound)
    (valuesLt : column.values.length < UInt32.size) (indexable : column.Indexable) :
    column.texts? = some column.texts := by
  rw [texts?, texts, List.range_eq_range']
  apply textsFrom?_eq
  · intro row _ inside
    have rowInside : row < column.offsets.length := by omega
    rcases sound.count with none | perRow
    · rw [none] at rowInside
      exact absurd rowInside (Nat.not_lt_zero row)
    · exact isNull?_of_indexable valid indexable (by omega)
  · intro row _ inside
    exact sound.textAt?_eq valuesLt (by omega)

end Columnar.Column
