import Columnar.Guarded
import Columnar.Wire.Stream

/-!
# Guarded readers

A guarded reader does what a `Reader` does, but in signed 32-bit words and byte by byte, and it
stops where a reader must not go: a sum, difference or product of lengths that overflows, or a
look-up of a byte before the first or behind the last that may be read.  What it computes on the
way to a refusal is computed with the same care as what it computes on the way to an answer.
-/

namespace Columnar.Wire

/-- A reader whose limit and position are signed words. -/
structure GuardedReader where
  bytes : Bytes
  limit : Int32
  position : Int32
  error? : Option ReadError
deriving DecidableEq, Repr

namespace GuardedReader

/-- A guarded reader at the start of `bytes`, of which it may read the first `limit`. -/
def ofPart (bytes : Bytes) (limit : Int32) : GuardedReader :=
  ⟨bytes, limit, 0, none⟩

/-- The reader that is guarded. -/
def reader (guarded : GuardedReader) : Reader :=
  ⟨guarded.bytes, guarded.limit.toInt, guarded.position.toInt.toNat, guarded.error?⟩

/-- How many bytes are left. -/
def remaining? (guarded : GuardedReader) : Option Int32 :=
  Guarded.sub? guarded.limit guarded.position

/-- Whether `count` bytes are left. The reader fails if they are not, unless it has failed
already. -/
def check? (count : Int32) (guarded : GuardedReader) : Option (Bool × GuardedReader) :=
  match guarded.error? with
  | some _ => some (false, guarded)
  | none => do
    let remaining ← guarded.remaining?
    if 0 ≤ count ∧ count ≤ remaining then
      return (true, guarded)
    else
      let cause := .short count.toInt guarded.position.toInt.toNat remaining.toInt
      return (false, { guarded with error? := some cause })

/-- The byte at an index, which has to lie before the limit. -/
def byteAt? (index : Int32) (guarded : GuardedReader) : Option UInt8 :=
  if 0 ≤ index ∧ index < guarded.limit then guarded.bytes[index.toInt.toNat]? else none

/-- The `count` bytes from an index on, looked up one by one. -/
def bytesFrom? (guarded : GuardedReader) : (index : Int32) → (count : Nat) → Option Bytes
  | _, 0 => some []
  | index, count + 1 => do
    let byte ← guarded.byteAt? index
    let next ← Guarded.add? index 1
    let rest ← guarded.bytesFrom? next count
    return byte :: rest

/-- The next `count` bytes, as `Reader.take` yields them. -/
def take? (count : Int32) (guarded : GuardedReader) : Option (Option Bytes × GuardedReader) := do
  let (enough, guarded) ← guarded.check? count
  if enough then
    let bytes ← guarded.bytesFrom? guarded.position count.toInt.toNat
    let position ← Guarded.add? guarded.position count
    return (some bytes, { guarded with position })
  else
    return (none, guarded)

/-- The next bytes, or the empty sequence. -/
def takeOrEmpty? (count : Int32) (guarded : GuardedReader) : Option (Bytes × GuardedReader) := do
  let (bytes?, guarded) ← guarded.take? count
  return (bytes?.getD [], guarded)

/-- The next `width` bytes as a number, or zero. -/
def unsigned? (width : Int32) (guarded : GuardedReader) : Option (Nat × GuardedReader) := do
  let (bytes?, guarded) ← guarded.take? width
  return ((bytes?.map Bytes.ofBigEndian).getD 0, guarded)

def uint16? (guarded : GuardedReader) : Option (UInt16 × GuardedReader) := do
  let (value, guarded) ← guarded.unsigned? 2
  return (UInt16.ofNat value, guarded)

def uint32? (guarded : GuardedReader) : Option (UInt32 × GuardedReader) := do
  let (value, guarded) ← guarded.unsigned? 4
  return (UInt32.ofNat value, guarded)

def int64? (guarded : GuardedReader) : Option (Int64 × GuardedReader) := do
  let (code, guarded) ← guarded.unsigned? 8
  return (ZigZag.decode (UInt64.ofNat code), guarded)

/-- The next signed number, which has to fit 32 bits. The report of one that does not names the
position before it. -/
def int32? (guarded : GuardedReader) : Option (Int32 × GuardedReader) := do
  let (value, guarded) ← guarded.int64?
  match guarded.error? with
  | some _ => return (0, guarded)
  | none =>
    if Int32.minValue.toInt ≤ value.toInt ∧ value.toInt ≤ Int32.maxValue.toInt then
      return (value.toInt32, guarded)
    else
      let start ← Guarded.sub? guarded.position 8
      return (0, { guarded with error? := some (.outOfRange value start.toInt.toNat) })

def text? (guarded : GuardedReader) : Option (Bytes × GuardedReader) := do
  let (size, guarded) ← guarded.uint16?
  guarded.takeOrEmpty? (Int32.ofNat size.toNat)

/-- Fails for want of one byte more than is left. -/
def refuse? {α : Type} (guarded : GuardedReader) : Option (List α × GuardedReader) := do
  let remaining ← guarded.remaining?
  let needed ← Guarded.add? remaining 1
  let (_, guarded) ← guarded.check? needed
  return ([], guarded)

/-- The next buffer. What is left is compared with its size as an unsigned word. -/
def buffer? (guarded : GuardedReader) : Option (Bytes × GuardedReader) := do
  let (size, guarded) ← guarded.uint32?
  let remaining ← guarded.remaining?
  if remaining.toUInt32 < size then
    guarded.refuse?
  else
    guarded.takeOrEmpty? size.toInt32

/-- The next list of 32-bit words. How many are left is compared with their count as an unsigned
word. -/
def uint32s? (guarded : GuardedReader) : Option (List UInt32 × GuardedReader) := do
  let (count, guarded) ← guarded.uint32?
  let remaining ← guarded.remaining?
  if (remaining / 4).toUInt32 < count then
    guarded.refuse?
  else
    let size ← Guarded.mul? count.toInt32 4
    let (bytes, guarded) ← guarded.takeOrEmpty? size
    return ((Bytes.words 4 (bytes.length / 4) bytes).map UInt32.ofNat, guarded)

/-- Asks a guarded reader. -/
def run? (request : Request) (guarded : GuardedReader) : Option (Answer × GuardedReader) :=
  let renamed {α : Type} (name : α → Answer) :=
    Option.map fun result : α × GuardedReader => (name result.1, result.2)
  match request with
  | .uint16 => renamed (.item ∘ .uint16) guarded.uint16?
  | .uint32 => renamed (.item ∘ .uint32) guarded.uint32?
  | .int32 => renamed (.item ∘ .int32) guarded.int32?
  | .int64 => renamed (.item ∘ .int64) guarded.int64?
  | .text => renamed (.item ∘ .text) guarded.text?
  | .buffer => renamed (.item ∘ .buffer) guarded.buffer?
  | .uint32s => renamed (.item ∘ .uint32s) guarded.uint32s?
  | .raw count => renamed .raw (guarded.take? count)

/-- Asks a guarded reader one request after the other. -/
def runAll? : List Request → GuardedReader → Option (List Answer × GuardedReader)
  | [], guarded => some ([], guarded)
  | request :: rest, guarded => do
    let (answer, guarded) ← guarded.run? request
    let (answers, guarded) ← runAll? rest guarded
    return (answer :: answers, guarded)

end GuardedReader

end Columnar.Wire
