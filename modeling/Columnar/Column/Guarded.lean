import Columnar.Column.Basic
import Columnar.Guarded

/-!
# Guarded reading and removing of rows

A guarded read of a row computes with the words that the row's position is kept in, and stops
where it must not go: at a bit whose index overflows, at a byte that the bitmap does not have, and
at a text that starts behind its end or ends behind the values.  A guarded removal of the last row
stops there too, and at a value or an offset that the column does not have.

The check of a header adds a column's bit offset and its rows as wide words, a read of a row adds
them as signed 32-bit ones.
-/

namespace Columnar.Column

/-- The byte with the bit at an index, which has to lie in the bitmap. -/
def validityByte? (index : Int32) (column : Column) : Option UInt8 :=
  if 0 ≤ index then column.validity[index.toInt.toNat / 8]? else none

/-- Whether a row is null, as `isNull` says it. -/
def isNull? (row : Int32) (column : Column) : Option Bool :=
  if column.rowCount ≤ row ∨ column.validity = [] then some true
  else if column.nullCount = 0 then some false
  else do
    let index ← Guarded.add? column.bitOffset row
    let byte ← column.validityByte? index
    return !byte.toNat.testBit (index.toInt.toNat % 8)

/-- How many of `count` rows from a row on are null. -/
def nullRowsFrom? (column : Column) : (row count : Nat) → Option Nat
  | _, 0 => some 0
  | row, count + 1 => do
    let null ← column.isNull? (Int32.ofNat row)
    let others ← column.nullRowsFrom? (row + 1) count
    return if null then others + 1 else others

/-- How many rows are null. -/
def nullRows? (column : Column) : Option Nat :=
  column.nullRowsFrom? 0 column.rowCount.toInt.toNat

/-- Where the text of a row ends, as a word. -/
def textStop (row : Nat) (column : Column) : UInt32 :=
  column.offsets[row + 1]?.getD (UInt32.ofNat column.values.length)

/-- The text of a row, which has to have an offset and to lie in the values. -/
def textAt? (row : Nat) (column : Column) : Option Bytes := do
  let start ← column.offsets[row]?
  Bytes.slice? start.toNat (column.textStop row).toNat column.values

/-- The texts of `count` rows from a row on, without those that are null. -/
def textsFrom? (column : Column) : (row count : Nat) → Option (List Bytes)
  | _, 0 => some []
  | row, count + 1 => do
    let null ← column.isNull? (Int32.ofNat row)
    let texts ← if null then some [] else (column.textAt? row).map ([·])
    let rest ← column.textsFrom? (row + 1) count
    return texts ++ rest

/-- The texts of the rows that are not null, as `texts` yields them. -/
def texts? (column : Column) : Option (List Bytes) :=
  column.textsFrom? 0 column.offsets.length

/-! ## Removing the last row -/

/-- The offset of a row's text, which has to be there. -/
def offset? (row : Int) (column : Column) : Option UInt32 :=
  if 0 ≤ row then column.offsets[row.toNat]? else none

/-- The null count without the last row. -/
def nullCountBefore? (wasNull : Bool) (column : Column) : Option Int32 :=
  if wasNull then Guarded.sub? column.nullCount 1 else some column.nullCount

/-- The values without those of the last row, which has some only if it is present. -/
def valuesBefore? (storage : Storage) (last : Int32) (wasNull : Bool) (column : Column) :
    Option Bytes :=
  if wasNull then
    some column.values
  else
    match storage with
    | .text => do
      let start ← column.offset? last.toInt
      return resize 0 start.toNat column.values
    | _ => Bytes.range? 0 (column.values.length - storage.width) column.values

/-- The offsets without that of the last row. -/
def offsetsBefore? (storage : Storage) (last : Int32) (column : Column) : Option (List UInt32) :=
  match storage with
  | .text => if 0 ≤ last then some (resize 0 last.toInt.toNat column.offsets) else none
  | _ => some column.offsets

/-- The column of a known storage without its last row, as `withoutLast` makes it. -/
def withoutLast? (storage : Storage) (column : Column) : Option Column := do
  let last ← Guarded.sub? column.rowCount 1
  let wasNull ← column.isNull? last
  let index ← Guarded.add? column.bitOffset last
  let nullCount ← column.nullCountBefore? wasNull
  let values ← column.valuesBefore? storage last wasNull
  let offsets ← column.offsetsBefore? storage last
  return { column with
    rowCount := last
    nullCount := nullCount
    values := values
    validity := if index.toInt % 8 = 0 then column.validity.dropLast else column.validity
    offsets := offsets }

/-- Removes the last row, if there is one, as `removeLast` does. -/
def removeLast? (type : ValueType) (column : Column) : Option (Except UnsupportedType Column) :=
  match type.storage with
  | .absent => some (.error ⟨type⟩)
  | storage =>
    if column.rowCount = 0 then some (.ok column)
    else do return .ok (← column.withoutLast? storage)

end Columnar.Column
