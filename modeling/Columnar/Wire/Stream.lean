import Columnar.Wire.Reader

/-!
# Streams of items

What is written to a buffer is a sequence of items, one written form after the other.  A text that
is refused leaves no trace.  A reader is asked for the items one by one, by kind, or for a number
of bytes as they stand.
-/

namespace Columnar.Wire

/-- A value with a written form. -/
inductive Item where
  | uint16 (value : UInt16)
  | uint32 (value : UInt32)
  | int32 (value : Int32)
  | int64 (value : Int64)
  | text (value : Bytes)
  | buffer (value : Bytes)
  | uint32s (values : List UInt32)
deriving DecidableEq, Repr

/-- What a reader is asked for: an item of some kind, or the next bytes. -/
inductive Request where
  | uint16
  | uint32
  | int32
  | int64
  | text
  | buffer
  | uint32s
  /-- The next `count` bytes. A negative number of bytes is never there. -/
  | raw (count : Int32)
deriving DecidableEq, Repr

/-- What a reader answers. -/
inductive Answer where
  | item (item : Item)
  /-- Bytes as they stand, or nothing where they are not there. -/
  | raw (bytes? : Option Bytes)
deriving DecidableEq, Repr

namespace Item

/-- The written form of an item under a limit on the length of texts. -/
def encode (limit : Int32) : Item → Except TooLong Bytes
  | uint16 value => .ok (Wire.uint16 value)
  | uint32 value => .ok (Wire.uint32 value)
  | int32 value => .ok (Wire.int32 value)
  | int64 value => .ok (Wire.int64 value)
  | text value => Wire.text limit value
  | buffer value => .ok (Wire.buffer value)
  | uint32s values => .ok (Wire.uint32s values)

/-- Appends an item to a buffer, and tells why it is refused if it is. -/
def appendTo (limit : Int32) (item : Item) (bytes : Bytes) : Bytes × Option TooLong :=
  match item.encode limit with
  | .ok written => (bytes ++ written, none)
  | .error cause => (bytes, some cause)

/-- Appends items one after the other, and tells of each why it is refused if it is. -/
def appendAll (limit : Int32) : List Item → Bytes → Bytes × List (Option TooLong)
  | [], bytes => (bytes, [])
  | item :: rest, bytes =>
    let (bytes, refusal?) := item.appendTo limit bytes
    let (bytes, refusals) := appendAll limit rest bytes
    (bytes, refusal? :: refusals)

/-- The request that an item answers. -/
def request : Item → Request
  | uint16 _ => .uint16
  | uint32 _ => .uint32
  | int32 _ => .int32
  | int64 _ => .int64
  | text _ => .text
  | buffer _ => .buffer
  | uint32s _ => .uint32s

end Item

namespace Request

/-- The answer of a reader that has failed: zero, empty or nothing. -/
def blank : Request → Answer
  | uint16 => .item (.uint16 0)
  | uint32 => .item (.uint32 0)
  | int32 => .item (.int32 0)
  | int64 => .item (.int64 0)
  | text => .item (.text [])
  | buffer => .item (.buffer [])
  | uint32s => .item (.uint32s [])
  | raw _ => .raw none

/-- Renames what was read. -/
def renamed {α β : Type} (name : α → β) (result : α × Reader) : β × Reader :=
  (name result.1, result.2)

/-- Asks a reader. -/
def run (request : Request) (reader : Reader) : Answer × Reader :=
  match request with
  | uint16 => renamed (.item ∘ .uint16) reader.uint16
  | uint32 => renamed (.item ∘ .uint32) reader.uint32
  | int32 => renamed (.item ∘ .int32) reader.int32
  | int64 => renamed (.item ∘ .int64) reader.int64
  | text => renamed (.item ∘ .text) reader.text
  | buffer => renamed (.item ∘ .buffer) reader.buffer
  | uint32s => renamed (.item ∘ .uint32s) reader.uint32s
  | raw count => renamed .raw (reader.take count.toInt)

/-- Asks a reader one request after the other. -/
def runAll : List Request → Reader → List Answer × Reader
  | [], reader => ([], reader)
  | request :: rest, reader =>
    let (answer, reader) := request.run reader
    let (answers, reader) := runAll rest reader
    (answer :: answers, reader)

theorem runAll_append (earlier later : List Request) (reader : Reader) :
    runAll (earlier ++ later) reader =
      ((runAll earlier reader).1 ++ (runAll later (runAll earlier reader).2).1,
        (runAll later (runAll earlier reader).2).2) := by
  induction earlier generalizing reader with
  | nil => rfl
  | cons request rest ih => simp only [List.cons_append, runAll, ih]

end Request

end Columnar.Wire
