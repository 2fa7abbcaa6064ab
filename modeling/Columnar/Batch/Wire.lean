import Columnar.Batch.Basic
import Columnar.Column.Wire
import Columnar.Guarded

/-!
# Written form of batches

A batch is written as the number of its fields, each field behind its size, the number of its
columns, and each column behind its size.

Only a field name can keep a batch from being written.  What was written before it stays in the
buffer, the size of the refused field included.

A read accepts exactly one batch and nothing behind it.  Each entry is read on its own, from the
bytes that its size gives it, and has to use them up.
-/

namespace Columnar

namespace Batch

/-! ## Writing -/

/-- Why a batch cannot be written: the field at `index` cannot. -/
structure EncodeError where
  index : Nat
  cause : Field.EncodeError
deriving DecidableEq, Repr

/-- The wording of a batch that cannot be written. -/
def EncodeError.message (error : EncodeError) : Bytes :=
  Bytes.within (Bytes.ofString s!"marshal field {error.index}") error.cause.message

/-- The length of the batch's written form. -/
def size (batch : Batch) : Nat :=
  4 + batch.schema.foldr (fun field total => 4 + field.size + total) 0 +
    4 + batch.columns.foldr (fun column total => 4 + column.size + total) 0

/-- The written form of a column behind its size. -/
def columnEntry (column : Column) : Bytes :=
  Wire.uint32 (UInt32.ofNat column.size) ++ column.encode

/-- The entries of the fields from `index` on, up to the first one that is refused, of which
only the size is written. -/
def fieldEntries (limit : Int32) : (index : Nat) → Schema → Bytes × Option EncodeError
  | _, [] => ([], none)
  | index, field :: rest =>
    let sizeBytes := Wire.uint32 (UInt32.ofNat field.size)
    match field.encode limit with
    | .error cause => (sizeBytes, some ⟨index, cause⟩)
    | .ok written =>
      let (entries, error?) := fieldEntries limit (index + 1) rest
      (sizeBytes ++ written ++ entries, error?)

/-- Appends the batch's written form to a buffer. On failure the buffer holds what was written
so far. -/
def appendTo (limit : Int32) (buffer : Bytes) (batch : Batch) : Bytes × Option EncodeError :=
  let (fields, error?) := fieldEntries limit 0 batch.schema
  let written := buffer ++ Wire.uint32 (UInt32.ofNat batch.schema.length) ++ fields
  match error? with
  | some cause => (written, some cause)
  | none =>
    (written ++ Wire.uint32 (UInt32.ofNat batch.columns.length) ++
      batch.columns.flatMap columnEntry, none)

/-! ## Reading -/

/-- The two lists of entries that make up a written batch. -/
inductive Part where
  | fields
  | columns
deriving DecidableEq, Repr

namespace Part

/-- The name of the list. -/
def listName : Part → String
  | .fields => "schema"
  | .columns => "colval"

/-- The name of one entry. -/
def entryName : Part → String
  | .fields => "field"
  | .columns => "colval"

end Part

/-- Why a batch cannot be read. -/
inductive DecodeError where
  /-- The number of entries is missing. -/
  | missingCount (part : Part) (cause : Wire.ReadError)
  /-- There are more entries than the rest has room for. -/
  | excessiveCount (part : Part) (count : Nat) (available : Int)
  /-- The size or the bytes of an entry are missing. -/
  | entry (part : Part) (index : Nat) (cause : Wire.ReadError)
  /-- The bytes of an entry are not a field. -/
  | field (index : Nat) (cause : Field.DecodeError)
  /-- The bytes of an entry are not a column. -/
  | column (index : Nat) (cause : Column.DecodeError)
  /-- An entry does not use up its bytes. -/
  | entryRest (part : Part) (index : Nat) (bytes : Int)
  /-- There are bytes behind the batch. -/
  | rest (bytes : Int)
deriving DecidableEq, Repr

/-- The wording of a batch that cannot be read. -/
def DecodeError.message : DecodeError → Bytes
  | .missingCount part cause =>
      Bytes.within (Bytes.ofString s!"decode {part.listName} count") cause.message
  | .excessiveCount part count available =>
      Bytes.ofString s!"invalid {part.listName} count {count} for {available} bytes"
  | .entry part index cause =>
      Bytes.within (Bytes.ofString s!"decode {part.entryName} {index}") cause.message
  | .field index cause => Bytes.within (Bytes.ofString s!"field {index}") cause.message
  | .column index cause => Bytes.within (Bytes.ofString s!"colval {index}") cause.message
  | .entryRest part index bytes =>
      Bytes.ofString s!"{part.entryName} {index}: {bytes} trailing bytes"
  | .rest bytes => Bytes.ofString s!"record: {bytes} trailing bytes"

/-- Reads a field as the entry at `index`. -/
def readField (index : Nat) (reader : Wire.Reader) : Except DecodeError (Field × Wire.Reader) :=
  let (field, reader) := Field.read reader
  match Field.readError? reader with
  | some cause => .error (.field index cause)
  | none => .ok (field, reader)

/-- Reads a column as the entry at `index`. -/
def readColumn (index : Nat) (reader : Wire.Reader) : Except DecodeError (Column × Wire.Reader) :=
  let (column, reader) := Column.read reader
  match column.readError? reader with
  | some cause => .error (.column index cause)
  | none => .ok (column, reader)

section Entries

variable {α : Type} (part : Part)
  (readContent : Nat → Wire.Reader → Except DecodeError (α × Wire.Reader))

/-- Reads the entry at `index` from the bytes that its size gives it. The size is taken as a
signed number, and a negative one is never there. -/
def readEntry (index : Nat) (reader : Wire.Reader) : Except DecodeError (α × Wire.Reader) :=
  let (size, reader) := reader.uint32
  let (bytes, reader) := reader.takeOrEmpty size.toInt32.toInt
  match reader.error? with
  | some cause => .error (.entry part index cause)
  | none =>
    match readContent index (.ofBytes bytes) with
    | .error cause => .error cause
    | .ok (content, contentReader) =>
      if contentReader.remaining = 0 then
        .ok (content, reader)
      else
        .error (.entryRest part index contentReader.remaining)

/-- Reads `count` entries, the first of them at `index`. -/
def readEntries : (index count : Nat) → Wire.Reader → Except DecodeError (List α × Wire.Reader)
  | _, 0, reader => .ok ([], reader)
  | index, count + 1, reader =>
    match readEntry part readContent index reader with
    | .error cause => .error cause
    | .ok (entry, reader) =>
      match readEntries (index + 1) count reader with
      | .error cause => .error cause
      | .ok (entries, reader) => .ok (entry :: entries, reader)

/-- Reads a list of entries behind its count. Every entry takes at least the four bytes of its
size, so a larger count is refused before any entry is read. -/
def readPart (reader : Wire.Reader) : Except DecodeError (List α × Wire.Reader) :=
  let (count, reader) := reader.uint32
  match reader.error? with
  | some cause => .error (.missingCount part cause)
  | none =>
    if reader.remaining < 4 * count.toNat then
      .error (.excessiveCount part count.toNat reader.remaining)
    else
      readEntries part readContent 0 count.toNat reader

end Entries

/-- Reads a batch from a reader, which has to be used up. -/
def read (reader : Wire.Reader) : Except DecodeError Batch :=
  match readPart .fields readField reader with
  | .error cause => .error cause
  | .ok (schema, reader) =>
    match readPart .columns readColumn reader with
    | .error cause => .error cause
    | .ok (columns, reader) =>
      if reader.remaining = 0 then
        .ok ⟨schema, columns⟩
      else
        .error (.rest reader.remaining)

/-- Replaces a batch by the one that is read. A failed read leaves it as it was. -/
def readInto (reader : Wire.Reader) (batch : Batch) : Batch × Option DecodeError :=
  match read reader with
  | .ok decoded => (decoded, none)
  | .error cause => (batch, some cause)

end Batch

/-! ## Guarded sizes

The sizes of written forms as they are worked out ahead of writing: in signed 32-bit words, each
from the sizes of its parts, up to the first length, sum or product that fits no word. -/

open Guarded

/-- The length of the written form of a text, as `textSize` says it. -/
def Wire.textSize? (value : Bytes) : Option Int32 :=
  sum? (length? value.length) (length? 2)

/-- The length of the written form of a buffer, as `bufferSize` says it. -/
def Wire.bufferSize? (value : Bytes) : Option Int32 :=
  sum? (length? value.length) (length? 4)

/-- The length of the written form of a list of 32-bit words, as `uint32sSize` says it. -/
def Wire.uint32sSize? (values : List UInt32) : Option Int32 :=
  sum? (product? (length? values.length) (length? 4)) (length? 4)

/-- The length of the field's written form, as `size` says it. -/
def Field.size? (field : Field) : Option Int32 :=
  sum? (Wire.textSize? field.name) (length? 4)

/-- The length of the column's written form, as `size` says it. -/
def Column.size? (column : Column) : Option Int32 :=
  sum? (sum? (sum? (product? (length? 8) (length? 3)) (Wire.bufferSize? column.values))
    (Wire.bufferSize? column.validity)) (Wire.uint32sSize? column.offsets)

namespace Batch

/-- A total to which entries of the given sizes are added one after the other. -/
def addEntries? {α : Type} (size? : α → Option Int32) (values : List α)
    (total : Option Int32) : Option Int32 :=
  values.foldl (fun total value => sum? total (sum? (length? 4) (size? value))) total

/-- The length of the batch's written form, as `size` says it. -/
def size? (batch : Batch) : Option Int32 :=
  addEntries? Column.size? batch.columns
    (sum? (addEntries? Field.size? batch.schema (length? 4)) (length? 4))

end Batch

end Columnar
