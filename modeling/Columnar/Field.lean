import Columnar.Wire.Reader
import Columnar.ValueType

/-!
# Fields and schemas

A field is a name and a value type, a schema a list of fields.  A field is written as its name
and its type code.
-/

namespace Columnar

/-- The name and value type of a column. -/
structure Field where
  name : Bytes
  type : ValueType
deriving DecidableEq, Repr

/-- The fields of a batch, in the order of its columns. -/
abbrev Schema := List Field

namespace Field

/-- The reserved name of the column of timestamps. -/
def timeName : Bytes :=
  Bytes.ofString "time"

/-- The field with an empty name and the unknown type. -/
def empty : Field :=
  ⟨[], .unknown⟩

/-- The name followed by the label of the type. -/
def signature (field : Field) : Bytes :=
  field.name ++ Bytes.ofString field.type.label

/-- Whether the first field belongs strictly before the second: by name, byte by byte, with the
time field behind all others. -/
def precedes (first second : Field) : Bool :=
  if first.name = timeName then false
  else if second.name = timeName then true
  else first.name < second.name

/-! ## Written form -/

/-- Why a field cannot be written. -/
structure EncodeError where
  cause : Wire.TooLong
deriving DecidableEq, Repr

/-- The wording of a field that cannot be written. -/
def EncodeError.message (error : EncodeError) : Bytes :=
  Bytes.within (Bytes.ofString "marshal field name") error.cause.message

/-- Why a field cannot be read. -/
structure DecodeError where
  cause : Wire.ReadError
deriving DecidableEq, Repr

/-- The wording of a field that cannot be read. -/
def DecodeError.message (error : DecodeError) : Bytes :=
  Bytes.within (Bytes.ofString "decode field") error.cause.message

/-- The length of the field's written form. -/
def size (field : Field) : Nat :=
  Wire.textSize field.name + 4

/-- The field's written form under a limit on the length of names. -/
def encode (limit : Int32) (field : Field) : Except EncodeError Bytes :=
  match Wire.text limit field.name with
  | .error cause => .error ⟨cause⟩
  | .ok written => .ok (written ++ Wire.uint32 field.type.code.toUInt32)

/-- Reads a field; what could not be read is empty or zero. -/
def read (reader : Wire.Reader) : Field × Wire.Reader :=
  let (name, reader) := reader.text
  let (code, reader) := reader.uint32
  (⟨name, ⟨code.toInt32⟩⟩, reader)

/-- The failure of a reader that has just read a field. -/
def readError? (reader : Wire.Reader) : Option DecodeError :=
  reader.error?.map DecodeError.mk

end Field

/-- One signature per line. -/
def Schema.listing (schema : Schema) : Bytes :=
  schema.flatMap fun field => field.signature ++ Bytes.ofString "\n"

end Columnar
