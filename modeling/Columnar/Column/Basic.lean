import Columnar.Binary64
import Columnar.Bitmap
import Columnar.ValueType

/-!
# Columns

A column holds one value or a null for each row.  The values that are present lie packed in row
order; the validity bitmap says for each row whether its value is present.  The bitmap may start
inside a byte: row zero has the bit at the column's bit offset, so a column can share a byte range
that begins in the middle of another column's rows.

A column of texts has one offset for each row, null rows included.  A text ends where the next
row's offset points, the last one at the end of the values.

The three counts in the header are 32-bit words and wrap like them.  Nothing ties them to the
buffers: a column that comes from outside has to pass `Column.layoutError?` first.

Where the bit of a row is, is a number here and not a word, and a bit behind the bitmap is clear.
That is what reading with words yields as long as the numbers are words and the bits are there;
`Column.isNull?` and `Column.withoutLast?` stop elsewhere.
-/

namespace Columnar

/-- The rows of one column. -/
structure Column where
  /-- Rows, nulls included. -/
  rowCount : Int32
  /-- Null rows. -/
  nullCount : Int32
  /-- The bit of row zero in `validity`. -/
  bitOffset : Int32
  /-- The present values one after the other. -/
  values : Bytes
  /-- One bit per row, set where the value is present. -/
  validity : Bytes
  /-- Where the bytes of each row's text start in `values`; empty for fixed-width values. -/
  offsets : List UInt32
deriving DecidableEq, Repr

namespace Column

/-- The column without rows. -/
def empty : Column :=
  ⟨0, 0, 0, [], [], []⟩

/-- The bit of a row in the validity bitmap, a number of any size. -/
def bitIndex (column : Column) (row : Int) : Nat :=
  (column.bitOffset.toInt + row).toNat

/-- Whether a row is null. Rows behind the last are, and all rows of a column without a bitmap;
a column that counts no nulls has none. -/
def isNull (column : Column) (row : Int) : Bool :=
  if column.rowCount.toInt ≤ row ∨ column.validity = [] then true
  else if column.nullCount = 0 then false
  else !Bitmap.bit column.validity (column.bitIndex row)

/-! ## Appending rows -/

/-- Counts one more row and marks whether its value is present. -/
def mark (present : Bool) (column : Column) : Column :=
  { column with
    validity := Bitmap.put (column.bitIndex column.rowCount.toInt) present column.validity
    rowCount := column.rowCount + 1 }

/-- Appends a row whose value has the given bytes. -/
def appendValue (value : Bytes) (column : Column) : Column :=
  { column.mark true with values := column.values ++ value }

/-- Appends a null row. -/
def appendNull (column : Column) : Column :=
  { column.mark false with nullCount := column.nullCount + 1 }

/-- Starts the text of a new row at the end of the values. -/
def pushOffset (column : Column) : Column :=
  { column with offsets := column.offsets ++ [UInt32.ofNat column.values.length] }

def appendInteger (value : Int64) (column : Column) : Column :=
  column.appendValue (Bytes.littleEndian 8 value.toUInt64.toNat)

def appendFloat (value : Binary64) (column : Column) : Column :=
  column.appendValue (Bytes.littleEndian 8 value.bits.toNat)

def appendBoolean (value : Bool) (column : Column) : Column :=
  column.appendValue [if value then 1 else 0]

/-- Appends a row that holds a text. -/
def appendText (value : Bytes) (column : Column) : Column :=
  column.pushOffset.appendValue value

/-- Appends a null row to a column of texts. -/
def appendTextNull (column : Column) : Column :=
  column.pushOffset.appendNull

/-- Appends one row per item with the given single append. -/
def appendEach {α : Type} (append : α → Column → Column) (items : List α) (column : Column) :
    Column :=
  items.foldl (fun column item => append item column) column

/-- Appends `count` null rows, none when the count is negative. -/
def appendNulls (count : Int) (column : Column) : Column :=
  column.appendEach (fun _ => appendNull) (List.replicate count.toNat ())

/-- Appends `count` null rows to a column of texts, none when the count is negative. -/
def appendTextNulls (count : Int) (column : Column) : Column :=
  column.appendEach (fun _ => appendTextNull) (List.replicate count.toNat ())

/-! ## Reading values -/

/-- The present values as signed numbers. -/
def integers (column : Column) : List Int64 :=
  (Bytes.words 8 (column.values.length / 8) column.values).map fun word =>
    (UInt64.ofNat word).toInt64

/-- The present values as floating-point values. -/
def floats (column : Column) : List Binary64 :=
  (Bytes.words 8 (column.values.length / 8) column.values).map fun word => ⟨UInt64.ofNat word⟩

/-- The present values as truth values: every byte but zero is true. -/
def booleans (column : Column) : List Bool :=
  column.values.map fun byte => byte != 0

/-- Where the text of a row starts. -/
def offsetAt (column : Column) (row : Nat) : UInt32 :=
  column.offsets[row]?.getD 0

/-- Where the text of a row ends. -/
def textEnd (column : Column) (row : Nat) : Nat :=
  (column.offsets[row + 1]?.map UInt32.toNat).getD column.values.length

/-- The bytes of the text of a row. -/
def textAt (column : Column) (row : Nat) : Bytes :=
  Bytes.slice (column.offsetAt row).toNat (column.textEnd row) column.values

/-- The texts of the rows that are not null. -/
def texts (column : Column) : List Bytes :=
  ((List.range column.offsets.length).filter fun (row : Nat) => !column.isNull row).map
    column.textAt

/-! ## Removing the last row -/

/-- The column of a known storage without its last row. Its value's bytes go if it is present,
its offset in a column of texts, and its validity byte if it has no other row. -/
def withoutLast (storage : Storage) (column : Column) : Column :=
  let last := column.rowCount - 1
  let wasNull := column.isNull (column.rowCount.toInt - 1)
  let shorter :=
    match storage with
    | .text => resize 0 (column.offsetAt last.toInt.toNat).toNat column.values
    | _ => column.values.take (column.values.length - storage.width)
  { column with
    rowCount := last
    nullCount := if wasNull then column.nullCount - 1 else column.nullCount
    values := if wasNull then column.values else shorter
    validity :=
      if (column.bitOffset.toInt + last.toInt) % 8 = 0 then column.validity.dropLast
      else column.validity
    offsets :=
      match storage with
      | .text => resize 0 last.toInt.toNat column.offsets
      | _ => column.offsets }

/-- Removes the last row, if there is one. -/
def removeLast (type : ValueType) (column : Column) : Except UnsupportedType Column :=
  match type.storage with
  | .absent => .error ⟨type⟩
  | storage => .ok (if column.rowCount = 0 then column else column.withoutLast storage)

end Column

end Columnar
