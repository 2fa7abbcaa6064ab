import Columnar.Bytes
import Columnar.Guarded

/-!
# Bitmaps

A bitmap is a byte sequence read as bits, lowest bit of each byte first.  Positions count bits
from the start of the sequence; a position beyond its end holds a clear bit.

`bit_put` says that writing one bit changes that bit only.  `appendRange` copies a range of bits
behind a given position.  Where both sides start on a byte it copies whole bytes to the end of
the target, which then also carries the source's bits behind the range.

A range is given by signed positions that are counted from a base bit of the source, and may lie
before it.  Behind the base a range ends with the byte of its last bit (`appendRange_natCast`).
A range that ends before the byte of the base is copied up to one byte more.

A guarded copy computes with the signed words that positions are kept in, counts the source's bits
from the byte in which they start, and stops where it must not go: at a position that overflows and
at a byte that the source or the target does not have.
-/

namespace Columnar.Bitmap

/-- The bit at a position. -/
def bit (bitmap : Bytes) (position : Nat) : Bool :=
  (bitmap[position / 8]?.getD 0).toNat.testBit (position % 8)

/-- How many bytes hold the first `count` bits. -/
def byteCount (count : Nat) : Nat :=
  (count + 7) / 8

/-- The byte with the bit at `index` replaced, for an index below eight. -/
def writeBit (index : Nat) (value : Bool) (byte : UInt8) : UInt8 :=
  if value then
    byte ||| (1 <<< UInt8.ofNat index)
  else
    byte &&& ~~~(1 <<< UInt8.ofNat index)

/-- The bitmap with the bit at a position replaced, extended with clear bits up to its byte
where it is too short. -/
def put (position : Nat) (value : Bool) (bitmap : Bytes) : Bytes :=
  (bitmap ++ List.replicate (position / 8 + 1 - bitmap.length) 0).modify (position / 8)
    (writeBit (position % 8) value)

/-- Writes the source's bits from `start` on to the target's positions from `position` on, for
`count` bits. -/
def copyBits (source : Bytes) : (start position count : Nat) → Bytes → Bytes
  | _, _, 0, bitmap => bitmap
  | start, position, count + 1, bitmap =>
    copyBits source (start + 1) (position + 1) count (put position (bit source start) bitmap)

/-- The whole bytes that hold the bits at positions `first` up to `last`. -/
def span (first last : Nat) (bitmap : Bytes) : Bytes :=
  Bytes.slice (first / 8) (byteCount last) bitmap

/-- The number of whole bytes up to a signed position, rounded toward zero, and one byte more
for a rest. -/
def byteEnd (position : Int) : Int :=
  position.tdiv 8 + if position % 8 = 0 then 0 else 1

/-- Appends the source's bits `first` up to `last`, counted from the bit `base`, to a bitmap whose
bits in use end at `position`. -/
def appendRange (source : Bytes) (base first last position : Int) (bitmap : Bytes) : Bytes :=
  if position % 8 = 0 ∧ (base + first) % 8 = 0 then
    let firstByte := (base + first) / 8
    let endByte := base / 8 + byteEnd (base % 8 + last)
    bitmap ++ Bytes.slice firstByte.toNat endByte.toNat source
  else
    let count := (last - first).toNat
    let added := byteCount (position.toNat + count) - byteCount position.toNat
    copyBits source (base + first).toNat position.toNat count (bitmap ++ List.replicate added 0)

/-! ## Ranges behind the base -/

theorem byteEnd_natCast (count : Nat) : byteEnd count = byteCount count := by
  rw [byteEnd, byteCount, Int.tdiv_eq_ediv_of_nonneg (Int.natCast_nonneg count)]
  split <;> omega

/-- Behind the base, whole bytes are copied up to the byte of the last bit, and single bits are
copied otherwise. -/
theorem appendRange_natCast (source : Bytes) (base first last position : Nat) (bitmap : Bytes) :
    appendRange source base first last position bitmap =
      if position % 8 = 0 ∧ (base + first) % 8 = 0 then
        bitmap ++ span (base + first) (base + last) source
      else
        copyBits source (base + first) position (last - first)
          (bitmap ++
            List.replicate (byteCount (position + (last - first)) - byteCount position) 0) := by
  have count : ((last : Int) - first).toNat = last - first := by omega
  have start : ((base : Int) + first).toNat = base + first := by omega
  have firstByte : (((base : Int) + first) / 8).toNat = (base + first) / 8 := by omega
  have endByte : ((base : Int) / 8 + byteEnd ((base : Int) % 8 + last)).toNat =
      byteCount (base + last) := by
    have offset : (base : Int) % 8 + last = (base % 8 + last : Nat) := by omega
    rw [offset, byteEnd_natCast, byteCount, byteCount]
    omega
  have aligned : ((position : Int) % 8 = 0 ∧ ((base : Int) + first) % 8 = 0) ↔
      (position % 8 = 0 ∧ (base + first) % 8 = 0) := by
    omega
  simp only [appendRange, aligned, count, start, firstByte, endByte, Int.toNat_natCast, span]

/-! ## Single bits -/

private theorem testBit_mask (index other : Nat) (indexLt : index < 8) (otherLt : other < 8) :
    (1 <<< UInt8.ofNat index : UInt8).toNat.testBit other = decide (index = other) := by
  have table : ∀ first : Fin 8, ∀ second : Fin 8,
      (1 <<< UInt8.ofNat first.val : UInt8).toNat.testBit second.val =
        decide (first.val = second.val) := by
    decide
  exact table ⟨index, indexLt⟩ ⟨other, otherLt⟩

private theorem testBit_not (byte : UInt8) (index : Nat) (indexLt : index < 8) :
    (~~~byte).toNat.testBit index = !byte.toNat.testBit index := by
  rw [← UInt8.toNat_toBitVec, ← UInt8.toNat_toBitVec, UInt8.toBitVec_not,
    BitVec.testBit_toNat, BitVec.testBit_toNat, BitVec.getLsbD_not]
  simp [indexLt]

theorem testBit_writeBit (index other : Nat) (value : Bool) (byte : UInt8)
    (indexLt : index < 8) (otherLt : other < 8) :
    (writeBit index value byte).toNat.testBit other =
      if other = index then value else byte.toNat.testBit other := by
  cases value with
  | false =>
    have written : writeBit index false byte = byte &&& ~~~(1 <<< UInt8.ofNat index) := rfl
    rw [written, UInt8.toNat_and, Nat.testBit_and, testBit_not _ _ otherLt,
      testBit_mask index other indexLt otherLt]
    by_cases same : other = index
    · simp [same]
    · simp [same, Ne.symm same]
  | true =>
    have written : writeBit index true byte = byte ||| (1 <<< UInt8.ofNat index) := rfl
    rw [written, UInt8.toNat_or, Nat.testBit_or, testBit_mask index other indexLt otherLt]
    by_cases same : other = index
    · simp [same]
    · simp [same, Ne.symm same]

theorem length_put (position : Nat) (value : Bool) (bitmap : Bytes) :
    (put position value bitmap).length = max bitmap.length (position / 8 + 1) := by
  simp only [put, List.length_modify, List.length_append, List.length_replicate]
  omega

/-- Clear bits behind the end of a bitmap are not seen. -/
@[simp] theorem bit_append_replicate (bitmap : Bytes) (count position : Nat) :
    bit (bitmap ++ List.replicate count 0) position = bit bitmap position := by
  unfold bit
  by_cases inside : position / 8 < bitmap.length
  · rw [List.getElem?_append_left inside]
  · have outside : bitmap.length ≤ position / 8 := Nat.le_of_not_lt inside
    rw [List.getElem?_append_right outside, List.getElem?_eq_none outside,
      List.getElem?_replicate]
    split <;> rfl

@[simp] theorem bit_replicate_zero (count position : Nat) :
    bit (List.replicate count 0) position = false := by
  rw [← List.nil_append (List.replicate count 0), bit_append_replicate]
  simp [bit]

theorem bit_take (bitmap : Bytes) {size position : Nat} (inside : position / 8 < size) :
    bit (bitmap.take size) position = bit bitmap position := by
  unfold bit
  rw [List.getElem?_take_of_lt inside]

/-- Writing a bit changes that bit only. -/
@[simp] theorem bit_put (bitmap : Bytes) (position other : Nat) (value : Bool) :
    bit (put position value bitmap) other = if other = position then value else bit bitmap other := by
  rw [← bit_append_replicate bitmap (position / 8 + 1 - bitmap.length) other]
  have covered : position / 8 <
      (bitmap ++ List.replicate (position / 8 + 1 - bitmap.length) (0 : UInt8)).length := by
    simp only [List.length_append, List.length_replicate]
    omega
  unfold put
  generalize bitmap ++ List.replicate (position / 8 + 1 - bitmap.length) (0 : UInt8) = covering
    at covered
  unfold bit
  rw [List.getElem?_modify]
  by_cases sameByte : position / 8 = other / 8
  · have indexLt : position % 8 < 8 := Nat.mod_lt _ (by decide)
    have otherLt : other % 8 < 8 := Nat.mod_lt _ (by decide)
    rw [← sameByte, List.getElem?_eq_getElem covered]
    simp only [if_true, Option.map_eq_map, Option.map_some, Option.getD_some]
    rw [testBit_writeBit _ _ _ _ indexLt otherLt]
    have samePosition : other % 8 = position % 8 ↔ other = position := by omega
    simp only [samePosition]
  · have different : other ≠ position := by
      intro same
      exact sameByte (by rw [same])
    simp [sameByte, different]

/-! ## Guarded copies -/

/-- A bitmap from the byte of some bit on. -/
structure Window where
  bytes : Bytes
  /-- How many of the bytes hold the bits that are looked at. -/
  count : Int
  /-- Where the first of these bits is. -/
  offset : Int
deriving DecidableEq, Repr

/-- The window of the `rows` bits from `base` on, which has to start in the bitmap or at its end. -/
def window? (base rows : Int) (bitmap : Bytes) : Option Window := do
  let stop ← Guarded.int? (base + rows)
  let bytes ← Bytes.range? (base / 8) bitmap.length bitmap
  return ⟨bytes, (stop / 8 + if stop % 8 = 0 then 0 else 1) - base / 8, base % 8⟩

/-- The bit at a position, whose byte has to be in the bitmap. -/
def bit? (bitmap : Bytes) (position : Int) : Option Bool := do
  let position ← Guarded.int? position
  let byte ← if 0 ≤ position then bitmap[position.toNat / 8]? else none
  return byte.toNat.testBit (position.toNat % 8)

/-- The bitmap with the bit at a position replaced, whose byte has to be in it. -/
def put? (position : Int) (value : Bool) (bitmap : Bytes) : Option Bytes := do
  let position ← Guarded.int? position
  if 0 ≤ position ∧ position.toNat / 8 < bitmap.length then
    some (bitmap.modify (position.toNat / 8) (writeBit (position.toNat % 8) value))
  else
    none

/-- Writes bits one by one, as `copyBits` does. -/
def copyBits? (source : Bytes) : (start position : Int) → (count : Nat) → Bytes → Option Bytes
  | _, _, 0, bitmap => some bitmap
  | start, position, count + 1, bitmap => do
    let value ← bit? source start
    let written ← put? position value bitmap
    copyBits? source (start + 1) (position + 1) count written

/-- Appends the bits `first` up to `last` of the `rows` bits from `base` on, as `appendRange`
does. -/
def appendRange? (source : Bytes) (base rows first last position : Int) (bitmap : Bytes) :
    Option Bytes := do
  let window ← window? base rows source
  let start ← Guarded.int? (first + window.offset)
  if position % 8 = 0 ∧ start % 8 = 0 then
    let stop ← Guarded.int? (last + window.offset)
    let added ← Bytes.range? (start.tdiv 8) (byteEnd stop) window.bytes
    return bitmap ++ added
  else
    let reach ← Guarded.int? (position + last)
    let stop ← Guarded.int? (reach - first)
    let needed ← Guarded.int? (stop + 7)
    let used ← Guarded.int? (position + 7)
    let count ← Guarded.int? (last - first)
    let added := needed.tdiv 8 - used.tdiv 8
    copyBits? window.bytes start position count.toNat
      (bitmap ++ List.replicate added.toNat 0)

end Columnar.Bitmap
