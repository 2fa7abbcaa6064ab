import Columnar.Wire.Reader

/-!
# Reading what was written

A reader that stands in front of a written form reads the value back and stands behind it,
whatever bytes follow.  Each law below says this for one kind of value, through
`Reader.rest`, the bytes that the reader has left.

The laws need a reader in good order (`Reader.InBounds`) that has not failed.
-/

namespace Columnar.Wire

/-- The elements of a list of 32-bit words, one after the other. -/
def wordBytes (values : List UInt32) : Bytes :=
  values.flatMap fun value => Bytes.littleEndian 4 value.toNat

theorem length_wordBytes (values : List UInt32) :
    (wordBytes values).length = 4 * values.length := by
  have size := length_uint32s values
  rw [uint32s, List.length_append, length_uint32, uint32sSize] at size
  rw [wordBytes]
  omega

/-- Elements are read back from their bytes. -/
theorem words_wordBytes (values : List UInt32) :
    (Bytes.words 4 values.length (wordBytes values)).map UInt32.ofNat = values := by
  have words := Bytes.words_flatMap_littleEndian 4 (values.map UInt32.toNat) [] (by
    intro number member
    obtain ⟨value, -, rfl⟩ := List.mem_map.mp member
    exact value.toNat_lt)
  rw [List.append_nil, List.length_map, List.flatMap_map] at words
  rw [wordBytes, words, List.map_map]
  conv => rhs; rw [← List.map_id values]
  apply List.map_congr_left
  intro value _
  exact UInt32.ofNat_toNat

namespace Reader

/-- The reader has not failed, and its position and limit lie inside its bytes. -/
structure InBounds (reader : Reader) : Prop where
  error?_eq_none : reader.error? = none
  position_le : (reader.position : Int) ≤ reader.limit
  limit_le : reader.limit ≤ reader.bytes.length

theorem inBounds_ofPart {bytes : Bytes} {limit : Int} (nonneg : 0 ≤ limit)
    (limitLe : limit ≤ bytes.length) : (ofPart bytes limit).InBounds where
  error?_eq_none := rfl
  position_le := nonneg
  limit_le := limitLe

theorem inBounds_ofBytes (bytes : Bytes) : (ofBytes bytes).InBounds :=
  inBounds_ofPart (Int.natCast_nonneg _) (Int.le_refl _)

@[simp] theorem rest_ofBytes (bytes : Bytes) : (ofBytes bytes).rest = bytes := by
  simp [rest, remaining_ofBytes]
  simp [ofBytes, ofPart]

namespace InBounds

variable {reader : Reader}

theorem length_rest (inBounds : reader.InBounds) :
    (reader.rest.length : Int) = reader.remaining := by
  have positionLe := inBounds.position_le
  have limitLe := inBounds.limit_le
  simp only [rest, remaining, List.length_take, List.length_drop]
  omega

/-- What is left splits into the bytes that are skipped and the bytes that are left then. -/
theorem skip (inBounds : reader.InBounds) {content after : Bytes}
    (restEq : reader.rest = content ++ after) :
    (reader.skip content.length).InBounds ∧ (reader.skip content.length).rest = after := by
  have length := inBounds.length_rest
  rw [restEq, List.length_append] at length
  have positionLe := inBounds.position_le
  have limitLe := inBounds.limit_le
  simp only [remaining] at length
  constructor
  · exact {
      error?_eq_none := inBounds.error?_eq_none
      position_le := by
        simp only [Reader.skip]
        omega
      limit_le := limitLe }
  · have dropped : reader.rest.drop content.length = after := by
      rw [restEq, List.drop_left' rfl]
    rw [← dropped]
    simp only [rest, Reader.skip, remaining, List.drop_take, List.drop_drop]
    congr 1
    omega

/-- The reader yields as many bytes as it is asked for, and then has the others left. -/
theorem take (inBounds : reader.InBounds) {content after : Bytes}
    (restEq : reader.rest = content ++ after) :
    reader.take content.length = (some content, reader.skip content.length) := by
  have length := inBounds.length_rest
  rw [restEq, List.length_append] at length
  have enough : (0 : Int) ≤ content.length ∧ (content.length : Int) ≤ reader.remaining := by
    omega
  have taken : (reader.bytes.drop reader.position).take content.length = content := by
    have front : reader.rest.take content.length = content := by
      rw [restEq, List.take_left' rfl]
    rw [rest, List.take_take, Nat.min_eq_left (by omega)] at front
    exact front
  rw [Reader.take, inBounds.error?_eq_none]
  simp only [if_pos enough, Int.toNat_natCast, taken]

theorem unsigned (inBounds : reader.InBounds) {width value : Nat} {after : Bytes}
    (valueLt : value < Bytes.wordCount width)
    (restEq : reader.rest = Bytes.bigEndian width value ++ after) :
    reader.unsigned width = (value, reader.skip width) := by
  have taken := inBounds.take restEq
  rw [Bytes.length_bigEndian] at taken
  rw [Reader.unsigned, taken]
  simp only [Bytes.ofBigEndian_bigEndian, Nat.mod_eq_of_lt valueLt]

/-! ## Words -/

theorem uint16 (inBounds : reader.InBounds) {value : UInt16} {after : Bytes}
    (restEq : reader.rest = Wire.uint16 value ++ after) :
    reader.uint16 = (value, reader.skip 2) := by
  rw [Reader.uint16, inBounds.unsigned value.toNat_lt restEq]
  simp

theorem uint32 (inBounds : reader.InBounds) {value : UInt32} {after : Bytes}
    (restEq : reader.rest = Wire.uint32 value ++ after) :
    reader.uint32 = (value, reader.skip 4) := by
  rw [Reader.uint32, inBounds.unsigned value.toNat_lt restEq]
  simp

theorem int64 (inBounds : reader.InBounds) {value : Int64} {after : Bytes}
    (restEq : reader.rest = Wire.int64 value ++ after) :
    reader.int64 = (value, reader.skip 8) := by
  rw [Reader.int64, inBounds.unsigned (ZigZag.encode value).toNat_lt restEq]
  simp

theorem int32 (inBounds : reader.InBounds) {value : Int32} {after : Bytes}
    (restEq : reader.rest = Wire.int32 value ++ after) :
    reader.int32 = (value, reader.skip 8) := by
  have noError : (reader.skip 8).error? = none := inBounds.error?_eq_none
  have lower := value.minValue_le_toInt
  have upper := value.toInt_le
  rw [Reader.int32, inBounds.int64 restEq]
  simp only [noError, Int32.toInt_toInt64]
  rw [if_pos ⟨lower, upper⟩]
  simp

/-! ## Sequences -/

theorem takeOrEmpty (inBounds : reader.InBounds) {content after : Bytes}
    (restEq : reader.rest = content ++ after) :
    reader.takeOrEmpty content.length = (content, reader.skip content.length) := by
  rw [Reader.takeOrEmpty, inBounds.take restEq]
  rfl

theorem skip_skip (first second : Nat) :
    (reader.skip first).skip second = reader.skip (first + second) := by
  simp [Reader.skip, Nat.add_assoc]

theorem text (inBounds : reader.InBounds) {limit : Int32} {value written after : Bytes}
    (writtenEq : Wire.text limit value = .ok written)
    (restEq : reader.rest = written ++ after) :
    reader.text = (value, reader.skip (textSize value)) := by
  obtain ⟨lengthLe, rfl⟩ := text_eq_ok_iff.mp writtenEq
  rw [List.append_assoc] at restEq
  have size := inBounds.uint16 restEq
  obtain ⟨afterSize, content⟩ := inBounds.skip restEq
  rw [length_uint16] at afterSize content
  have sizeEq : (UInt16.ofNat value.length).toNat = value.length := by
    rw [UInt16.toNat_ofNat']
    apply Nat.mod_eq_of_lt
    have bound : textLimit limit ≤ 65535 := Nat.min_le_right _ _
    omega
  rw [Reader.text, size]
  simp only [sizeEq]
  rw [afterSize.takeOrEmpty content, skip_skip, textSize, Nat.add_comm]

theorem buffer (inBounds : reader.InBounds) {value after : Bytes}
    (lengthLt : value.length < UInt32.size)
    (restEq : reader.rest = Wire.buffer value ++ after) :
    reader.buffer = (value, reader.skip (bufferSize value)) := by
  rw [Wire.buffer, List.append_assoc] at restEq
  have size := inBounds.uint32 restEq
  obtain ⟨afterSize, content⟩ := inBounds.skip restEq
  rw [length_uint32] at afterSize content
  have sizeEq : (UInt32.ofNat value.length).toNat = value.length :=
    UInt32.toNat_ofNat_of_lt' lengthLt
  have remaining := afterSize.length_rest
  rw [content, List.length_append] at remaining
  rw [Reader.buffer, size]
  simp only [sizeEq]
  rw [if_neg (by omega), afterSize.takeOrEmpty content, skip_skip, bufferSize, Nat.add_comm]

theorem uint32s (inBounds : reader.InBounds) {values : List UInt32} {after : Bytes}
    (lengthLt : values.length < UInt32.size)
    (restEq : reader.rest = Wire.uint32s values ++ after) :
    reader.uint32s = (values, reader.skip (uint32sSize values)) := by
  rw [Wire.uint32s, List.append_assoc] at restEq
  have count := inBounds.uint32 restEq
  obtain ⟨afterCount, content⟩ := inBounds.skip restEq
  rw [length_uint32] at afterCount content
  have countEq : (UInt32.ofNat values.length).toNat = values.length :=
    UInt32.toNat_ofNat_of_lt' lengthLt
  have contentLength : (wordBytes values).length = 4 * values.length := length_wordBytes values
  have contentEq : (reader.skip 4).rest = wordBytes values ++ after := content
  have remaining := afterCount.length_rest
  rw [contentEq, List.length_append, contentLength] at remaining
  have taken := afterCount.takeOrEmpty contentEq
  rw [contentLength] at taken
  rw [Reader.uint32s, count]
  simp only [countEq]
  rw [if_neg (by omega)]
  have product : ((4 * values.length : Nat) : Int) = 4 * (values.length : Int) := by omega
  rw [product] at taken
  simp only [taken, contentLength, Nat.mul_div_cancel_left _ (show 0 < 4 by decide),
    words_wordBytes]
  rw [skip_skip, uint32sSize, Nat.add_comm]

end InBounds

end Reader

end Columnar.Wire
