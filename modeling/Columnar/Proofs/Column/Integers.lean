import Columnar.Column.View
import Columnar.Proofs.Column.Layout

/-!
# Columns of integers

A column to which integers are appended holds their cells, and `integers` reads the integers back.
A well-formed column holds one integer for each row that is not null.
-/

namespace Columnar

/-- The cell of an integer. -/
def Cell.ofInteger (value : Int64) : Cell :=
  some (Bytes.littleEndian 8 value.toUInt64.toNat)

namespace Column

theorem represents_appendIntegers {cells : List Cell} {column : Column}
    (represents : column.Represents (.packed 8) cells) {values : List Int64}
    (rowsFit : cells.length + values.length < 2 ^ 31) :
    (column.appendEach appendInteger values).Represents (.packed 8)
      (cells ++ values.map Cell.ofInteger) := by
  have holds (value : Int64) : (Storage.packed 8).Holds (Cell.ofInteger value) :=
    Bytes.length_littleEndian 8 value.toUInt64.toNat
  have greatest : Int32.maxValue.toInt = 2147483647 := rfl
  exact represents.appendEach (fun _ _ _ => rfl) (fun value _ => holds value) (by omega)

theorem bitOffset_appendIntegers (values : List Int64) (column : Column) :
    (column.appendEach appendInteger values).bitOffset = column.bitOffset := by
  induction values generalizing column with
  | nil => rfl
  | cons value rest ih => exact ih (column.appendInteger value)

theorem length_packed_integers (values : List Int64) :
    (Cell.packed (values.map Cell.ofInteger)).length = 8 * values.length := by
  induction values with
  | nil => rfl
  | cons value rest ih =>
    have unfolded : Cell.packed ((value :: rest).map Cell.ofInteger) =
        Bytes.littleEndian 8 value.toUInt64.toNat ++ Cell.packed (rest.map Cell.ofInteger) := rfl
    rw [unfolded, List.length_append, Bytes.length_littleEndian, ih, List.length_cons]
    omega

/-- Values that are words of eight bytes are read as those words. -/
theorem words_of_values_eq {column : Column} {words : List Nat}
    (bounded : ∀ word ∈ words, word < 2 ^ 64)
    (valuesEq : column.values = words.flatMap (Bytes.littleEndian 8)) :
    Bytes.words 8 (column.values.length / 8) column.values = words := by
  have length : column.values.length / 8 = words.length := by
    rw [valuesEq, Bytes.length_flatMap_littleEndian, Nat.mul_div_cancel_left _ (by decide)]
  rw [length, valuesEq, ← List.append_nil (words.flatMap _)]
  exact Bytes.words_flatMap_littleEndian 8 words [] bounded

theorem integers_of_values_eq {column : Column} {values : List Int64}
    (valuesEq : column.values = Cell.packed (values.map Cell.ofInteger)) :
    column.integers = values := by
  have bounded : ∀ word ∈ values.map fun value => value.toUInt64.toNat, word < 2 ^ 64 := by
    intro word member
    obtain ⟨value, -, rfl⟩ := List.mem_map.mp member
    exact value.toUInt64.toNat_lt
  have words := words_of_values_eq bounded (by
    rw [valuesEq, Cell.packed, List.flatMap_map, List.flatMap_map]
    rfl)
  have cancelled : (fun word => (UInt64.ofNat word).toInt64) ∘
      (fun value : Int64 => value.toUInt64.toNat) = id := by
    funext value
    rw [Function.comp, UInt64.ofNat_toNat]
    rfl
  rw [integers, words, List.map_map, cancelled, List.map_id]

/-- There is one integer for each row that is not null. -/
theorem length_integers {column : Column} (fit : column.BuffersFit (.packed 8)) :
    (column.integers.length : Int) = column.rowCount.toInt - column.nullCount.toInt := by
  have length : (column.values.length : Int) =
      (8 : Nat) * (column.rowCount.toInt - column.nullCount.toInt) := fit
  rw [integers, List.length_map, Bytes.length_words]
  omega

end Column

end Columnar
