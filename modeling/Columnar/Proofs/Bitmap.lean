import Columnar.Bitmap
import Columnar.Proofs.Guarded
import Mathlib

/-!
# Bits of copied ranges

What `Bitmap.appendRange` leaves at each position.  A target whose bitmap ends with the byte of
its last bit keeps its bits, holds the copied range behind them, and ends with the byte of the
last copied bit again.  The whole-byte copy and the bit copy are told apart nowhere in these
statements.

A guarded copy of bits that the source has, to a position that the target has, goes through if the
numbers it computes with are signed words, and is then the plain copy.  The source is looked at from
the byte of its first bit on: there the bits stand at other positions, the same distance apart.
-/

namespace Columnar.Bitmap

theorem byteCount_mono {first last : Nat} (ordered : first ≤ last) :
    byteCount first ≤ byteCount last := by
  simp only [byteCount]
  omega

theorem le_mul_byteCount (count : Nat) : count ≤ 8 * byteCount count := by
  simp only [byteCount]
  omega

theorem byteCount_le_length {count : Nat} {bitmap : Bytes} (covered : count ≤ 8 * bitmap.length) :
    byteCount count ≤ bitmap.length := by
  simp only [byteCount]
  omega

/-- A bitmap that covers a position covers more bits behind it with the bytes that these need. -/
theorem le_length_padded {position : Nat} {bitmap : Bytes}
    (covered : position ≤ 8 * bitmap.length) (count : Nat) :
    position + count ≤ 8 * (bitmap ++
      List.replicate (byteCount (position + count) - byteCount position) 0).length := by
  have held := byteCount_le_length covered
  have room := le_mul_byteCount (position + count)
  rw [List.length_append, List.length_replicate]
  omega

theorem bit_append_left (bitmap more : Bytes) {position : Nat}
    (inside : position < 8 * bitmap.length) :
    bit (bitmap ++ more) position = bit bitmap position := by
  have byteInside : position / 8 < bitmap.length := by omega
  rw [bit, bit, List.getElem?_append_left byteInside]

theorem bit_append_right (bitmap more : Bytes) (position : Nat) :
    bit (bitmap ++ more) (8 * bitmap.length + position) = bit more position := by
  have byte : (8 * bitmap.length + position) / 8 = bitmap.length + position / 8 := by omega
  have index : (8 * bitmap.length + position) % 8 = position % 8 := by omega
  rw [bit, bit, byte, index, List.getElem?_append_right (Nat.le_add_right _ _),
    Nat.add_sub_cancel_left]

/-! ## Whole bytes -/

theorem length_span {first last : Nat} {bitmap : Bytes} (covered : last ≤ 8 * bitmap.length) :
    (span first last bitmap).length = byteCount last - first / 8 := by
  have enough := byteCount_le_length covered
  simp only [span, Bytes.slice, List.length_take, List.length_drop]
  omega

/-- A span keeps the bits of its range, counted from the byte in which it starts. -/
theorem bit_span (bitmap : Bytes) {first last position : Nat}
    (inside : first / 8 * 8 + position < last) :
    bit (span first last bitmap) position = bit bitmap (first / 8 * 8 + position) := by
  have byte : (first / 8 * 8 + position) / 8 = first / 8 + position / 8 := by omega
  have index : (first / 8 * 8 + position) % 8 = position % 8 := by omega
  have taken : position / 8 < byteCount last - first / 8 := by
    simp only [byteCount]
    omega
  rw [bit, bit, byte, index, span, Bytes.slice, List.getElem?_take_of_lt taken,
    List.getElem?_drop]

/-! ## Single bits -/

theorem length_copyBits (source : Bytes) (start : Nat) {position count : Nat} {bitmap : Bytes}
    (covered : position + count ≤ 8 * bitmap.length) :
    (copyBits source start position count bitmap).length = bitmap.length := by
  induction count generalizing start position bitmap with
  | zero => rfl
  | succ count ih =>
    have length : (put position (bit source start) bitmap).length = bitmap.length := by
      rw [length_put]
      omega
    rw [copyBits, ih (start + 1) (by omega), length]

theorem bit_copyBits (source : Bytes) (start position count : Nat) (bitmap : Bytes)
    (other : Nat) :
    bit (copyBits source start position count bitmap) other =
      if position ≤ other ∧ other < position + count then
        bit source (start + (other - position))
      else
        bit bitmap other := by
  induction count generalizing start position bitmap with
  | zero =>
    have outside : ¬(position ≤ other ∧ other < position + 0) := by omega
    rw [copyBits, if_neg outside]
  | succ count ih =>
    rw [copyBits, ih, bit_put]
    by_cases here : other = position
    · subst here
      have behind : ¬(other + 1 ≤ other ∧ other < other + 1 + count) := by omega
      rw [if_neg behind, if_pos rfl, if_pos (by omega), Nat.sub_self, Nat.add_zero]
    · rw [if_neg here]
      by_cases later : position + 1 ≤ other ∧ other < position + 1 + count
      · have index : start + 1 + (other - (position + 1)) = start + (other - position) := by
          omega
        rw [if_pos later, if_pos (by omega), index]
      · rw [if_neg later, if_neg (by omega)]

/-! ## Appended ranges -/

section Appended

variable {source bitmap : Bytes} {base first last position : Nat}

/-- The copied range ends with the byte of its last bit. -/
theorem length_appendRange (ordered : first ≤ last) (covered : base + last ≤ 8 * source.length)
    (exactLength : bitmap.length = byteCount position) :
    (appendRange source base first last position bitmap).length =
      byteCount (position + (last - first)) := by
  rw [appendRange_natCast]
  split
  next aligned =>
    rw [List.length_append, length_span covered, exactLength]
    simp only [byteCount]
    omega
  next unaligned =>
    have grown := byteCount_mono (Nat.le_add_right position (last - first))
    have room := le_mul_byteCount (position + (last - first))
    have length :
        (bitmap ++ List.replicate
          (byteCount (position + (last - first)) - byteCount position) 0).length =
        byteCount (position + (last - first)) := by
      rw [List.length_append, List.length_replicate, exactLength]
      omega
    rw [length_copyBits source (base + first) (by rw [length]; exact room), length]

/-- Neither copy changes the bits before the position. -/
theorem bit_appendRange_of_lt (covered : position ≤ 8 * bitmap.length) {other : Nat}
    (before : other < position) :
    bit (appendRange source base first last position bitmap) other = bit bitmap other := by
  rw [appendRange_natCast]
  split
  next aligned => exact bit_append_left _ _ (Nat.lt_of_lt_of_le before covered)
  next unaligned => rw [bit_copyBits, if_neg (by omega), bit_append_replicate]

theorem bit_appendRange_add (ordered : first ≤ last)
    (exactLength : bitmap.length = byteCount position) {offset : Nat}
    (inside : offset < last - first) :
    bit (appendRange source base first last position bitmap) (position + offset) =
      bit source (base + first + offset) := by
  rw [appendRange_natCast]
  split
  next aligned =>
    -- Without a rest on either side both ends lie on a byte.
    have targetEnd : position = 8 * bitmap.length := by
      rw [exactLength]
      simp only [byteCount]
      omega
    have sourceStart : (base + first) / 8 * 8 = base + first := by omega
    rw [targetEnd, bit_append_right, bit_span source (by omega), sourceStart]
  next unaligned =>
    rw [bit_copyBits, if_pos (by omega), Nat.add_sub_cancel_left]

end Appended

/-! ## Guarded copies -/

section Guarded

variable {source bitmap : Bytes} {base rows first last start position count : Nat}

theorem bit_drop (source : Bytes) (bytes position : Nat) :
    bit (source.drop bytes) position = bit source (8 * bytes + position) := by
  have byte : (8 * bytes + position) / 8 = bytes + position / 8 := by omega
  have index : (8 * bytes + position) % 8 = position % 8 := by omega
  rw [bit, bit, byte, index, List.getElem?_drop]

theorem copyBits_drop (source : Bytes) (bytes start position count : Nat) (bitmap : Bytes) :
    copyBits (source.drop bytes) start position count bitmap =
      copyBits source (8 * bytes + start) position count bitmap := by
  induction count generalizing start position bitmap with
  | zero => rfl
  | succ count ih => rw [copyBits, copyBits, bit_drop, ih, Nat.add_assoc]

theorem window?_eq (covered : base + rows ≤ 8 * source.length) (fits : base + rows < 2 ^ 31) :
    window? base rows source =
      some ⟨source.drop (base / 8), (byteCount (base + rows) : Int) - (base / 8 : Nat),
        (base % 8 : Nat)⟩ := by
  have stop : Guarded.int? ((base : Int) + rows) = some ((base : Int) + rows) :=
    Guarded.int?_eq (by omega) (by omega)
  have firstByte : (base : Int) / 8 = (base / 8 : Nat) := rfl
  have bytes : Bytes.range? (base / 8 : Nat) source.length source =
      some (source.drop (base / 8)) := by
    rw [Bytes.range?_eq (by omega) (Nat.le_refl _), Bytes.slice,
      List.take_of_length_le (by rw [List.length_drop])]
  have bytesUp : ((base : Int) + rows) / 8 + (if ((base : Int) + rows) % 8 = 0 then 0 else 1) =
      byteCount (base + rows) := by
    rw [byteCount]
    split <;> omega
  rw [window?, stop, Option.bind_eq_bind, Option.bind_some, firstByte, bytes,
    Option.bind_eq_bind, Option.bind_some, bytesUp]
  rfl

theorem bit?_eq (covered : position < 8 * bitmap.length) (fits : position < 2 ^ 31) :
    bit? bitmap position = some (bit bitmap position) := by
  have byteInside : position / 8 < bitmap.length := by omega
  rw [bit?, Guarded.int?_eq (by omega) (by omega), Option.bind_eq_bind, Option.bind_some,
    if_pos (Int.natCast_nonneg position), Int.toNat_natCast, bit,
    List.getElem?_eq_getElem byteInside]
  rfl

theorem put?_eq (value : Bool) (covered : position < 8 * bitmap.length)
    (fits : position < 2 ^ 31) : put? position value bitmap = some (put position value bitmap) := by
  have byteInside : position / 8 < bitmap.length := by omega
  have longEnough : position / 8 + 1 - bitmap.length = 0 := by omega
  rw [put?, Guarded.int?_eq (by omega) (by omega), Option.bind_eq_bind, Option.bind_some,
    Int.toNat_natCast, if_pos ⟨Int.natCast_nonneg position, byteInside⟩, put, longEnough,
    List.replicate_zero, List.append_nil]

theorem copyBits?_eq (sourceCovered : start + count ≤ 8 * source.length)
    (covered : position + count ≤ 8 * bitmap.length) (sourceFits : start + count ≤ 2 ^ 31)
    (fits : position + count ≤ 2 ^ 31) :
    copyBits? source start position count bitmap =
      some (copyBits source start position count bitmap) := by
  induction count generalizing start position bitmap with
  | zero => rfl
  | succ count ih =>
    have length : (put position (bit source start) bitmap).length = bitmap.length := by
      rw [length_put]
      omega
    rw [copyBits?, bit?_eq (by omega) (by omega), Option.bind_eq_bind, Option.bind_some,
      put?_eq _ (by omega) (by omega), Option.bind_eq_bind, Option.bind_some, copyBits]
    have nextStart : (start : Int) + 1 = (start + 1 : Nat) := rfl
    have nextPosition : (position : Int) + 1 = (position + 1 : Nat) := rfl
    rw [nextStart, nextPosition]
    exact ih (by omega) (by omega) (by omega) (by omega)

/-- A copy inside the bits that the source has goes through, if their positions and those of the
copies are words. -/
theorem appendRange?_eq (ordered : first ≤ last) (inside : last ≤ rows)
    (sourceCovered : base + rows ≤ 8 * source.length) (covered : position ≤ 8 * bitmap.length)
    (sourceFits : base + rows < 2 ^ 30) (fits : position + last + 7 < 2 ^ 31) :
    appendRange? source base rows first last position bitmap =
      some (appendRange source base first last position bitmap) := by
  have startEq : (first : Int) + (base % 8 : Nat) = (first + base % 8 : Nat) := rfl
  have start : Guarded.int? (first + base % 8 : Nat) = some ((first + base % 8 : Nat) : Int) :=
    Guarded.int?_eq (by omega) (by omega)
  have aligned : ((position : Int) % 8 = 0 ∧ ((first + base % 8 : Nat) : Int) % 8 = 0) ↔
      (position % 8 = 0 ∧ (base + first) % 8 = 0) := by
    omega
  rw [appendRange?, window?_eq sourceCovered (by omega), appendRange_natCast]
  simp only [Option.bind_eq_bind, Option.bind_some, startEq, start, aligned]
  split
  next wholeBytes =>
    have stopEq : (last : Int) + (base % 8 : Nat) = (last + base % 8 : Nat) := rfl
    have stop : Guarded.int? (last + base % 8 : Nat) = some ((last + base % 8 : Nat) : Int) :=
      Guarded.int?_eq (by omega) (by omega)
    have firstByte : ((first + base % 8 : Nat) : Int).tdiv 8 = ((first + base % 8) / 8 : Nat) :=
      Int.tdiv_eq_ediv_of_nonneg (Int.natCast_nonneg _)
    have firstEq : base / 8 + (first + base % 8) / 8 = (base + first) / 8 := by omega
    have endEq : base / 8 + byteCount (last + base % 8) = byteCount (base + last) := by
      rw [byteCount, byteCount]
      omega
    have endInside := byteCount_le_length
      (Nat.le_trans (Nat.add_le_add_left inside base) sourceCovered)
    have bytesOrdered : (first + base % 8) / 8 ≤ byteCount (last + base % 8) := by
      rw [byteCount]
      omega
    rw [stopEq, stop, Option.bind_some, firstByte, byteEnd_natCast,
      Bytes.range?_eq bytesOrdered (by rw [List.length_drop]; omega), Option.bind_some,
      Bytes.slice_drop, firstEq, endEq]
    rfl
  next singleBits =>
    have countEq : (last : Int) - first = (last - first : Nat) := by omega
    have padding : (((position : Int) + last - first + 7).tdiv 8 -
        ((position : Int) + 7).tdiv 8).toNat =
        byteCount (position + (last - first)) - byteCount position := by
      rw [Int.tdiv_eq_ediv_of_nonneg (by omega), Int.tdiv_eq_ediv_of_nonneg (by omega), byteCount,
        byteCount]
      omega
    have startBit : 8 * (base / 8) + (first + base % 8) = base + first := by omega
    have room := le_length_padded covered (last - first)
    rw [Guarded.int?_eq (by omega) (by omega), Option.bind_some,
      Guarded.int?_eq (by omega) (by omega), Option.bind_some,
      Guarded.int?_eq (by omega) (by omega), Option.bind_some,
      Guarded.int?_eq (by omega) (by omega), Option.bind_some,
      Guarded.int?_eq (by omega) (by omega), Option.bind_some, padding, countEq, Int.toNat_natCast,
      copyBits?_eq (by rw [List.length_drop]; omega) room (by omega) (by omega), copyBits_drop,
      startBit]

end Guarded

end Columnar.Bitmap
