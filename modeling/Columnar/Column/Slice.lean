import Columnar.NullIndex

/-!
# Appending rows of another column

Rows `first` up to `last` of a source column are appended as three block copies: their present
values, found through the null index of the source, the offsets of texts, moved to where the
values now lie, and the range of validity bits.

A copy of all rows into a column without rows takes the source's buffers as they are, and with
them the bit offset inside the first byte of its bitmap.

A guarded append computes with the words that rows, places and counts are kept in, and stops where
it must not go: at a number that overflows, at an entry that the null index does not have, and at a
byte or an offset that the source does not have.  It computes the moved offsets of texts one from
the other, each from the one before it and the size of the text between them.
-/

namespace Columnar.Column

/-- The same rows with only the bytes of the bitmap that hold them, so that the bit offset is
inside the first byte. -/
def trimmed (source : Column) : Column :=
  { source with
    validity := Bitmap.span (source.bitIndex 0) (source.bitIndex source.rowCount.toInt)
      source.validity
    bitOffset := Int32.ofInt (source.bitOffset.toInt % 8) }

/-- The offsets of the texts of rows `first` up to `last`, moved so that the first one starts
at the end of `valueBytes` bytes. -/
def movedOffsets (source : Column) (first last valueBytes : Nat) : List UInt32 :=
  (source.offsets.drop first |>.take (last - first)).map fun offset =>
    UInt32.ofNat valueBytes + (offset - source.offsetAt first)

/-- The bytes of the texts of rows `first` up to `last`. Where the last text ends is a word as the
offsets are. -/
def textRange (source : Column) (first last : Nat) : Bytes :=
  let stop :=
    if (last : Int) = source.rowCount.toInt then UInt32.ofNat source.values.length
    else source.offsetAt last
  Bytes.slice (source.offsetAt first).toNat stop.toNat source.values

/-- Appends a bitmap's bits `first` up to `last`, counted from the bit `base`, behind the bit of
the last row. The rows are not counted. -/
def appendBits (bitmap : Bytes) (base first last : Int) (column : Column) : Column :=
  { column with
    validity :=
      Bitmap.appendRange bitmap base first last
        (column.bitOffset.toInt + column.rowCount.toInt) column.validity }

/-- Appends rows `first` up to `last` of a column of the same storage. -/
def appendRange (source : Column) (storage : Storage) (first last : Int) (nulls : NullIndex)
    (column : Column) : Column :=
  let firstValue := nulls.rank first
  let lastValue := nulls.rank last
  let added :=
    match storage with
    | .text => source.textRange first.toNat last.toNat
    | _ =>
      Bytes.slice (firstValue.toNat * storage.width) (lastValue.toNat * storage.width)
        source.values
  { column.appendBits source.validity source.bitOffset.toInt first last with
    values := column.values ++ added
    offsets :=
      match storage with
      | .text =>
        column.offsets ++ source.movedOffsets first.toNat last.toNat column.values.length
      | _ => column.offsets
    rowCount := column.rowCount + Int32.ofInt (last - first)
    nullCount := column.nullCount + Int32.ofInt (last - first - (lastValue - firstValue)) }

/-- Appends rows `first` up to `last` of a source column, whose null index is given. -/
def appendRows (source : Column) (type : ValueType) (first last : Int) (nulls : NullIndex)
    (column : Column) : Except UnsupportedType Column :=
  match type.storage with
  | .absent => .error ⟨type⟩
  | storage =>
    if last ≤ first ∨ source.rowCount = 0 then
      .ok column
    else if last - first = source.rowCount.toInt ∧ column.rowCount = 0 then
      .ok source.trimmed
    else
      .ok (source.appendRange storage first last nulls column)

/-! ## Guarded appending -/

/-- The same rows with the bytes of the bitmap that hold them, as `trimmed` takes them. -/
def trimmed? (source : Column) : Option Column := do
  let window ← Bitmap.window? source.bitOffset.toInt source.rowCount.toInt source.validity
  let validity ← Bytes.range? 0 window.count window.bytes
  return { source with
    validity := validity
    bitOffset := Int32.ofInt window.offset }

/-- The places of the texts of `count` rows behind a row whose text is placed at `place`. -/
def placesBehind? (source : Column) : (place : UInt32) → (row : Int) → (count : Nat) →
    Option (List UInt32)
  | _, _, 0 => some []
  | place, row, count + 1 => do
    let next ← source.offset? (row + 1)
    let offset ← source.offset? row
    let places ← source.placesBehind? (place + (next - offset)) (row + 1) count
    return (place + (next - offset)) :: places

/-- The offsets of the texts of rows `first` up to `last`, of which there is one at least, moved
as `movedOffsets` does. -/
def movedOffsets? (source : Column) (first last : Int) (valueBytes : Nat) :
    Option (List UInt32) := do
  let place := UInt32.ofNat valueBytes
  let places ← source.placesBehind? place first (last - first - 1).toNat
  return place :: places

/-- Where the texts of the rows before a row end. -/
def textsEnd? (row : Int) (source : Column) : Option UInt32 :=
  if row = source.rowCount.toInt then some (UInt32.ofNat source.values.length)
  else source.offset? row

/-- The bytes of the texts of rows `first` up to `last`, as `textRange` takes them. -/
def textRange? (source : Column) (first last : Int) : Option Bytes := do
  let start ← source.offset? first
  let stop ← source.textsEnd? last
  Bytes.range? start.toNat stop.toNat source.values

/-- The bytes of the present values from `firstValue` up to `lastValue`, of `width` bytes each. -/
def fixedRange? (source : Column) (width : Nat) (firstValue lastValue : Int) : Option Bytes := do
  let start ← Guarded.int? (firstValue * width)
  let stop ← Guarded.int? (lastValue * width)
  Bytes.range? start stop source.values

/-- The bytes of the values of rows `first` up to `last`, whose present values are those from
`firstValue` up to `lastValue`. -/
def valueRange? (source : Column) (storage : Storage) (first last firstValue lastValue : Int) :
    Option Bytes :=
  match storage with
  | .text => source.textRange? first last
  | _ => source.fixedRange? storage.width firstValue lastValue

/-- The offsets that come with rows `first` up to `last`. -/
def offsetRange? (source : Column) (storage : Storage) (first last : Int) (valueBytes : Nat) :
    Option (List UInt32) :=
  match storage with
  | .text => source.movedOffsets? first last valueBytes
  | _ => some []

/-- Appends a bitmap's bits, of which `rows` follow the bit `base`, as `appendBits` does. -/
def appendBits? (bitmap : Bytes) (base rows first last : Int) (column : Column) :
    Option Column := do
  let position ← Guarded.int? (column.bitOffset.toInt + column.rowCount.toInt)
  let validity ← Bitmap.appendRange? bitmap base rows first last position column.validity
  return { column with validity := validity }

/-- Appends rows of a column of the same storage, as `appendRange` does. -/
def appendRange? (source : Column) (storage : Storage) (first last : Int) (nulls : NullIndex)
    (column : Column) : Option Column := do
  let firstValue ← nulls.rank? first
  let lastValue ← nulls.rank? last
  let offsets ← source.offsetRange? storage first last column.values.length
  let added ← source.valueRange? storage first last firstValue lastValue
  let marked ← column.appendBits? source.validity source.bitOffset.toInt source.rowCount.toInt
    first last
  let rows ← Guarded.int? (last - first)
  let present ← Guarded.int? (lastValue - firstValue)
  let absent ← Guarded.int? (rows - present)
  let rowCount ← Guarded.word? (column.rowCount.toInt + rows)
  let nullCount ← Guarded.word? (column.nullCount.toInt + absent)
  return { marked with
    values := column.values ++ added
    offsets := column.offsets ++ offsets
    rowCount := rowCount
    nullCount := nullCount }

/-- Appends rows of a source column whose null index is given, as `appendRows` does. -/
def appendRows? (source : Column) (type : ValueType) (first last : Int) (nulls : NullIndex)
    (column : Column) : Option (Except UnsupportedType Column) :=
  match type.storage with
  | .absent => some (.error ⟨type⟩)
  | storage =>
    if last ≤ first ∨ source.rowCount = 0 then
      some (.ok column)
    else do
      let rows ← Guarded.int? (last - first)
      if rows = source.rowCount.toInt ∧ column.rowCount = 0 then
        return .ok (← source.trimmed?)
      else
        return .ok (← source.appendRange? storage first last nulls column)

end Columnar.Column
