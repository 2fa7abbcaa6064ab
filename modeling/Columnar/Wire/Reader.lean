import Columnar.Wire.Encoding

/-!
# Reading written forms back

A reader walks over a byte sequence.  Its first failure is kept: from then on every read yields
the zero or empty value and moves nothing, so a caller can read a whole group of values and look
at the failure once.

Every read goes through `Reader.take`, the only operation that moves the position.
-/

namespace Columnar.Wire

/-- Why a read failed. -/
inductive ReadError where
  /-- `needed` bytes were asked for at `position`, where only `available` were left. -/
  | short (needed : Int) (position : Nat) (available : Int)
  /-- The number written at `position` does not fit 32 bits. -/
  | outOfRange (value : Int64) (position : Nat)
deriving DecidableEq, Repr

/-- The wording of a failed read. -/
def ReadError.message : ReadError → Bytes
  | .short needed position available =>
      Bytes.ofString
        s!"invalid size: need {needed} bytes at offset {position}, have {available}"
  | .outOfRange value position =>
      Bytes.ofString s!"invalid int: {value.toInt} at offset {position} out of range"

/-- A position in a byte sequence of which the first `limit` bytes may be read, and the first
failure so far. -/
structure Reader where
  bytes : Bytes
  limit : Int
  position : Nat
  error? : Option ReadError
deriving DecidableEq, Repr

namespace Reader

/-- A reader at the start of `bytes`, of which it may read the first `limit`. -/
def ofPart (bytes : Bytes) (limit : Int) : Reader :=
  ⟨bytes, limit, 0, none⟩

/-- A reader at the start of `bytes`. A buffer has fewer than `2 ^ 31` bytes, so its size is a limit
like any other. -/
def ofBytes (bytes : Bytes) : Reader :=
  ofPart bytes bytes.length

/-- How many bytes are left. -/
def remaining (reader : Reader) : Int :=
  reader.limit - reader.position

/-- The bytes that are left. -/
def rest (reader : Reader) : Bytes :=
  (reader.bytes.drop reader.position).take reader.remaining.toNat

/-- The reader `count` bytes further on. -/
def skip (count : Nat) (reader : Reader) : Reader :=
  { reader with position := reader.position + count }

/-- Records a failure, unless there is one already. -/
def fail (cause : ReadError) (reader : Reader) : Reader :=
  match reader.error? with
  | some _ => reader
  | none => { reader with error? := some cause }

/-- Fails for want of `needed` bytes, unless the reader has failed already. -/
def failShort (needed : Int) (reader : Reader) : Reader :=
  reader.fail (.short needed reader.position reader.remaining)

/-- The next `count` bytes, or nothing when the reader has failed or they are not there.
A negative count is never there. -/
def take (count : Int) (reader : Reader) : Option Bytes × Reader :=
  match reader.error? with
  | some _ => (none, reader)
  | none =>
    if 0 ≤ count ∧ count ≤ reader.remaining then
      (some ((reader.bytes.drop reader.position).take count.toNat), reader.skip count.toNat)
    else
      (none, reader.failShort count)

/-- The next `width` bytes as a number, or zero. -/
def unsigned (width : Nat) (reader : Reader) : Nat × Reader :=
  match reader.take width with
  | (some bytes, reader) => (Bytes.ofBigEndian bytes, reader)
  | (none, reader) => (0, reader)

/-- The next 16-bit word. -/
def uint16 (reader : Reader) : UInt16 × Reader :=
  let (value, reader) := reader.unsigned 2
  (UInt16.ofNat value, reader)

/-- The next 32-bit word. -/
def uint32 (reader : Reader) : UInt32 × Reader :=
  let (value, reader) := reader.unsigned 4
  (UInt32.ofNat value, reader)

/-- The next signed 64-bit number. -/
def int64 (reader : Reader) : Int64 × Reader :=
  let (code, reader) := reader.unsigned 8
  (ZigZag.decode (UInt64.ofNat code), reader)

/-- The next signed number, which has to fit 32 bits. The position stays behind a number that
does not. -/
def int32 (reader : Reader) : Int32 × Reader :=
  let (value, reader) := reader.int64
  match reader.error? with
  | some _ => (0, reader)
  | none =>
    if Int32.minValue.toInt ≤ value.toInt ∧ value.toInt ≤ Int32.maxValue.toInt then
      (value.toInt32, reader)
    else
      (0, reader.fail (.outOfRange value (reader.position - 8)))

/-- The next `count` bytes, or the empty sequence. -/
def takeOrEmpty (count : Int) (reader : Reader) : Bytes × Reader :=
  let (bytes?, reader) := reader.take count
  (bytes?.getD [], reader)

/-- The next text. -/
def text (reader : Reader) : Bytes × Reader :=
  let (size, reader) := reader.uint16
  reader.takeOrEmpty size.toNat

/-- The next buffer. A size beyond the rest fails for want of one byte more than the rest. -/
def buffer (reader : Reader) : Bytes × Reader :=
  let (size, reader) := reader.uint32
  if reader.remaining < size.toNat then
    ([], reader.failShort (reader.remaining + 1))
  else
    reader.takeOrEmpty size.toNat

/-- The next list of 32-bit words. A count whose words go beyond the rest fails for want of one
byte more than the rest. -/
def uint32s (reader : Reader) : List UInt32 × Reader :=
  let (count, reader) := reader.uint32
  if reader.remaining < 4 * count.toNat then
    ([], reader.failShort (reader.remaining + 1))
  else
    let (bytes, reader) := reader.takeOrEmpty (4 * count.toNat)
    ((Bytes.words 4 (bytes.length / 4) bytes).map UInt32.ofNat, reader)

/-! ## A failed reader -/

@[simp] theorem remaining_ofBytes (bytes : Bytes) :
    (ofBytes bytes).remaining = bytes.length := by
  simp [ofBytes, ofPart, remaining]

theorem fail_of_failed {reader : Reader} {earlier : ReadError}
    (failed : reader.error? = some earlier) (cause : ReadError) :
    reader.fail cause = reader := by
  simp [fail, failed]

theorem take_of_failed {reader : Reader} {cause : ReadError}
    (failed : reader.error? = some cause) (count : Int) :
    reader.take count = (none, reader) := by
  simp [take, failed]

end Reader

end Columnar.Wire
