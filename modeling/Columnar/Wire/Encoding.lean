import Columnar.Bytes

/-!
# Written form of words, texts and buffers

Counts and sizes are written most significant byte first, signed numbers as eight bytes of
zigzag code: an unsigned number that grows with the magnitude of the signed one.  A text carries a two-byte size, a buffer a four-byte size, and a list of unsigned
words a four-byte count before its little-endian elements.

Only a text can be refused: its size has to fit the two bytes, and the writer may lower the
limit further.  Each size function below gives the length of the matching written form.
-/

namespace Columnar.Wire

/-! ## Zigzag numbers

Nonnegative numbers become the even codes and negative numbers the odd ones, in the order
`0, -1, 1, -2, 2, …`.  The two maps are inverse to each other on all 64-bit words. -/

namespace ZigZag

/-- The code of a signed number: `2 n` when it is nonnegative and `-2 n - 1` otherwise. -/
def encode (value : Int64) : UInt64 :=
  if 0 ≤ value.toInt then
    UInt64.ofNat (2 * value.toInt).toNat
  else
    UInt64.ofNat (-2 * value.toInt - 1).toNat

/-- The signed number of a code: even codes are nonnegative, odd ones negative. -/
def decode (code : UInt64) : Int64 :=
  if code.toNat % 2 = 0 then
    Int64.ofInt (code.toNat / 2)
  else
    Int64.ofInt (-(code.toNat / 2) - 1)

theorem toNat_encode (value : Int64) :
    ((encode value).toNat : Int) =
      if 0 ≤ value.toInt then 2 * value.toInt else -2 * value.toInt - 1 := by
  have lower := value.le_toInt
  have upper := value.toInt_lt
  unfold encode
  split <;> rename_i sign <;> rw [UInt64.toNat_ofNat'] <;> omega

theorem toInt_decode (code : UInt64) :
    (decode code).toInt =
      if code.toNat % 2 = 0 then (code.toNat / 2 : Int) else -(code.toNat / 2 : Int) - 1 := by
  have bound := code.toNat_lt
  unfold decode
  split
  · rw [Int64.toInt_ofInt_of_le (by omega) (by omega)]
  · rw [Int64.toInt_ofInt_of_le (by omega) (by omega)]

@[simp] theorem decode_encode (value : Int64) : decode (encode value) = value := by
  apply Int64.toInt_inj.mp
  have code := toNat_encode value
  rw [toInt_decode]
  split at code <;> split <;> omega

@[simp] theorem encode_decode (code : UInt64) : encode (decode code) = code := by
  apply UInt64.toNat_inj.mp
  apply Int.ofNat_inj.mp
  have value := toInt_decode code
  rw [toNat_encode]
  split at value <;> split <;> omega

end ZigZag

/-! ## Words and buffers -/

/-- A 16-bit word in two bytes. -/
def uint16 (value : UInt16) : Bytes :=
  Bytes.bigEndian 2 value.toNat

/-- A 32-bit word in four bytes. -/
def uint32 (value : UInt32) : Bytes :=
  Bytes.bigEndian 4 value.toNat

/-- A signed 64-bit number in eight bytes of zigzag code. -/
def int64 (value : Int64) : Bytes :=
  Bytes.bigEndian 8 (ZigZag.encode value).toNat

/-- A signed 32-bit number, written as wide as a 64-bit one. -/
def int32 (value : Int32) : Bytes :=
  int64 value.toInt64

/-- A buffer behind its size. -/
def buffer (value : Bytes) : Bytes :=
  uint32 (UInt32.ofNat value.length) ++ value

/-- A list of 32-bit words behind its count; the elements are little-endian. -/
def uint32s (values : List UInt32) : Bytes :=
  uint32 (UInt32.ofNat values.length) ++
    values.flatMap fun value => Bytes.littleEndian 4 value.toNat

/-! ## Texts -/

/-- The limit on text sizes that leaves the two-byte size as the only restriction. -/
def maxTextLimit : Int32 := 65535

/-- The size limit in force under a configured one: never negative, never more than two bytes
can hold. -/
def textLimit (configured : Int32) : Nat :=
  min configured.toInt.toNat 65535

/-- A text of `length` bytes where at most `limit` are allowed. -/
structure TooLong where
  length : Nat
  limit : Nat
deriving DecidableEq, Repr

/-- The wording of a refused text. -/
def TooLong.message (cause : TooLong) : Bytes :=
  Bytes.ofString s!"string too long: {cause.length} bytes, max {cause.limit}"

/-- A text behind its size, refused when it is longer than the limit in force. -/
def text (configured : Int32) (value : Bytes) : Except TooLong Bytes :=
  if textLimit configured < value.length then
    .error ⟨value.length, textLimit configured⟩
  else
    .ok (uint16 (UInt16.ofNat value.length) ++ value)

/-! ## Sizes -/

/-- The length of the written form of a text. -/
def textSize (value : Bytes) : Nat :=
  value.length + 2

/-- The length of the written form of a buffer. -/
def bufferSize (value : Bytes) : Nat :=
  value.length + 4

/-- The length of the written form of a list of 32-bit words. -/
def uint32sSize (values : List UInt32) : Nat :=
  4 * values.length + 4

@[simp] theorem length_uint16 (value : UInt16) : (uint16 value).length = 2 := by
  simp [uint16]

@[simp] theorem length_uint32 (value : UInt32) : (uint32 value).length = 4 := by
  simp [uint32]

@[simp] theorem length_int64 (value : Int64) : (int64 value).length = 8 := by
  simp [int64]

@[simp] theorem length_int32 (value : Int32) : (int32 value).length = 8 := by
  simp [int32]

@[simp] theorem length_buffer (value : Bytes) : (buffer value).length = bufferSize value := by
  simp [buffer, bufferSize, Nat.add_comm]

@[simp] theorem length_uint32s (values : List UInt32) :
    (uint32s values).length = uint32sSize values := by
  simp only [uint32s, uint32sSize, List.length_append, length_uint32, List.length_flatMap,
    Bytes.length_littleEndian, List.map_const', List.sum_replicate_nat]
  omega

theorem text_eq_error_iff {configured : Int32} {value : Bytes} {cause : TooLong} :
    text configured value = .error cause ↔
      textLimit configured < value.length ∧ cause = ⟨value.length, textLimit configured⟩ := by
  unfold text
  split <;> rename_i bound <;> simp [bound, eq_comm]

theorem text_eq_ok_iff {configured : Int32} {value written : Bytes} :
    text configured value = .ok written ↔
      value.length ≤ textLimit configured ∧
        written = uint16 (UInt16.ofNat value.length) ++ value := by
  unfold text
  split <;> rename_i bound
  · simp [Nat.not_le.mpr bound]
  · simp [Nat.not_lt.mp bound, eq_comm]

theorem length_of_text_eq_ok {configured : Int32} {value written : Bytes}
    (writtenEq : text configured value = .ok written) : written.length = textSize value := by
  obtain ⟨-, rfl⟩ := text_eq_ok_iff.mp writtenEq
  simp [textSize, Nat.add_comm]

end Columnar.Wire
