import Columnar.Column.Layout
import Columnar.Wire.Reader

/-!
# Written form of columns

A column is written as its three counts, its values, its bitmap and its offsets.  Writing never
fails.  Reading checks what can be checked without the value type: the header, the bitmap, and
that the offsets, where there are any, are one per row and in order.
-/

namespace Columnar.Column

/-- Why a column cannot be read. -/
inductive DecodeError where
  | read (cause : Wire.ReadError)
  | layout (cause : LayoutError)
deriving DecidableEq, Repr

/-- The wording of a column that cannot be read. -/
def DecodeError.message : DecodeError → Bytes
  | .read cause => Bytes.within (Bytes.ofString "decode colval") cause.message
  | .layout cause => cause.message

/-- The length of the column's written form. -/
def size (column : Column) : Nat :=
  3 * 8 + Wire.bufferSize column.values + Wire.bufferSize column.validity +
    Wire.uint32sSize column.offsets

/-- The column's written form. -/
def encode (column : Column) : Bytes :=
  Wire.int32 column.rowCount ++ Wire.int32 column.nullCount ++ Wire.int32 column.bitOffset ++
    Wire.buffer column.values ++ Wire.buffer column.validity ++ Wire.uint32s column.offsets

/-- Reads a column; what could not be read is empty or zero. -/
def read (reader : Wire.Reader) : Column × Wire.Reader :=
  let (rowCount, reader) := reader.int32
  let (nullCount, reader) := reader.int32
  let (bitOffset, reader) := reader.int32
  let (values, reader) := reader.buffer
  let (validity, reader) := reader.buffer
  let (offsets, reader) := reader.uint32s
  (⟨rowCount, nullCount, bitOffset, values, validity, offsets⟩, reader)

/-- The first contradiction that shows without knowing the value type. -/
def untypedError? (column : Column) : Option LayoutError :=
  match column.headerError? with
  | some cause => some cause
  | none =>
    if column.offsets = [] ∨ column.offsetsPerRow then
      column.offsetError?
    else
      some (.offsetCount column.offsets.length column.rowCount)

/-- The failure of a reader that has just read the column, or else the column's own. -/
def readError? (column : Column) (reader : Wire.Reader) : Option DecodeError :=
  match reader.error? with
  | some cause => some (.read cause)
  | none => column.untypedError?.map .layout

theorem length_encode (column : Column) : column.encode.length = column.size := by
  simp only [encode, size, List.length_append, Wire.length_int32, Wire.length_buffer,
    Wire.length_uint32s]

end Columnar.Column
