/-!
# Byte sequences

Buffers, field names and messages are all plain lists of bytes.  Names come from outside and
need not be valid UTF-8, so every message that can quote one is a byte sequence too.  Each kind of
failure in this library is a type of its own, with its causes as constructors and its wording in one
function.  A failure seen from an enclosing activity is worded as the activity, a colon and the
failure.

Fixed-width words are written through one recursive encoder of naturals into a given number of
bytes.  `ofLittleEndian_littleEndian` and `littleEndian_ofLittleEndian` say that it is inverse to
the reader of such words.
-/

namespace Columnar

universe u

/-- A buffer, a name or a message. -/
abbrev Bytes := List UInt8

/-- The sequence cut to `size` items, or extended to `size` items with copies of `fill`. -/
def resize {α : Type u} (fill : α) (size : Nat) (items : List α) : List α :=
  items.take size ++ List.replicate (size - items.length) fill

@[simp] theorem length_resize {α : Type u} (fill : α) (size : Nat) (items : List α) :
    (resize fill size items).length = size := by
  simp only [resize, List.length_append, List.length_take, List.length_replicate]
  omega

theorem resize_of_le {α : Type u} (fill : α) {size : Nat} {items : List α}
    (shorter : size ≤ items.length) : resize fill size items = items.take size := by
  simp [resize, Nat.sub_eq_zero_of_le shorter]

namespace Bytes

/-- The UTF-8 bytes of a text. -/
def ofString (text : String) : Bytes :=
  text.toUTF8.data.toList

/-- The bytes at positions `first` up to, but not including, `last`. -/
def slice (first last : Nat) (bytes : Bytes) : Bytes :=
  (bytes.drop first).take (last - first)

/-- The slice, unless it runs backwards or behind the end. -/
def slice? (first last : Nat) (bytes : Bytes) : Option Bytes :=
  if first ≤ last ∧ last ≤ bytes.length then some (slice first last bytes) else none

/-- The slice between two signed positions, unless it runs backwards or out of the bytes. -/
def range? (first last : Int) (bytes : Bytes) : Option Bytes :=
  if 0 ≤ first then slice? first.toNat last.toNat bytes else none

/-! ## Fixed-width words -/

/-- The `width` low-order bytes of `value`, least significant first. -/
def littleEndian : (width value : Nat) → Bytes
  | 0, _ => []
  | width + 1, value => UInt8.ofNat value :: littleEndian width (value / 256)

/-- The number whose bytes are given least significant first. -/
def ofLittleEndian : Bytes → Nat
  | [] => 0
  | byte :: rest => byte.toNat + 256 * ofLittleEndian rest

/-- The `width` low-order bytes of `value`, most significant first. -/
def bigEndian (width value : Nat) : Bytes :=
  (littleEndian width value).reverse

/-- The number whose bytes are given most significant first. -/
def ofBigEndian (bytes : Bytes) : Nat :=
  ofLittleEndian bytes.reverse

/-- How many numbers `width` bytes can hold. -/
def wordCount : (width : Nat) → Nat
  | 0 => 1
  | width + 1 => 256 * wordCount width

/-- The first `count` little-endian words of `width` bytes each. -/
def words (width : Nat) : (count : Nat) → Bytes → List Nat
  | 0, _ => []
  | count + 1, bytes => ofLittleEndian (bytes.take width) :: words width count (bytes.drop width)

@[simp] theorem slice_self (position : Nat) (bytes : Bytes) :
    slice position position bytes = [] := by
  simp [slice]

@[simp] theorem slice_zero_length (bytes : Bytes) : slice 0 bytes.length bytes = bytes := by
  simp [slice]

theorem length_slice {first last : Nat} {bytes : Bytes} (inside : last ≤ bytes.length) :
    (slice first last bytes).length = last - first := by
  simp only [slice, List.length_take, List.length_drop]
  omega

theorem range?_eq {first last : Nat} {bytes : Bytes} (ordered : first ≤ last)
    (inside : last ≤ bytes.length) : range? first last bytes = some (slice first last bytes) := by
  rw [range?, if_pos (Int.natCast_nonneg first), Int.toNat_natCast, Int.toNat_natCast, slice?,
    if_pos ⟨ordered, inside⟩]

theorem slice_take {first last size : Nat} (inside : last ≤ size) (bytes : Bytes) :
    slice first last (bytes.take size) = slice first last bytes := by
  rw [slice, slice, List.drop_take, List.take_take, Nat.min_eq_left (Nat.sub_le_sub_right inside _)]

theorem slice_drop (first last size : Nat) (bytes : Bytes) :
    slice first last (bytes.drop size) = slice (size + first) (size + last) bytes := by
  rw [slice, slice, List.drop_drop, Nat.add_sub_add_left]

/-- Two slices that meet make up one. -/
theorem slice_append_slice {first middle last : Nat} (before : first ≤ middle)
    (behind : middle ≤ last) (bytes : Bytes) :
    slice first middle bytes ++ slice middle last bytes = slice first last bytes := by
  have count : last - first = (middle - first) + (last - middle) := by omega
  have start : middle = first + (middle - first) := by omega
  rw [slice, slice, slice, count, List.take_add, List.drop_drop, ← start]

@[simp] theorem length_littleEndian (width value : Nat) :
    (littleEndian width value).length = width := by
  induction width generalizing value with
  | zero => rfl
  | succ width ih => simp [littleEndian, ih]

@[simp] theorem length_bigEndian (width value : Nat) :
    (bigEndian width value).length = width := by
  simp [bigEndian]

@[simp] theorem length_words (width count : Nat) (bytes : Bytes) :
    (words width count bytes).length = count := by
  induction count generalizing bytes with
  | zero => rfl
  | succ count ih => simp [words, ih]

theorem ofLittleEndian_littleEndian (width value : Nat) :
    ofLittleEndian (littleEndian width value) = value % wordCount width := by
  induction width generalizing value with
  | zero => simp [littleEndian, ofLittleEndian, wordCount, Nat.mod_one]
  | succ width ih =>
    rw [littleEndian, ofLittleEndian, ih, UInt8.toNat_ofNat', wordCount, Nat.mod_mul]

theorem ofLittleEndian_lt (bytes : Bytes) : ofLittleEndian bytes < wordCount bytes.length := by
  induction bytes with
  | nil => simp [ofLittleEndian, wordCount]
  | cons byte rest ih =>
    have byteBound := byte.toNat_lt
    simp only [ofLittleEndian, List.length_cons, wordCount]
    omega

theorem littleEndian_ofLittleEndian (bytes : Bytes) :
    littleEndian bytes.length (ofLittleEndian bytes) = bytes := by
  induction bytes with
  | nil => rfl
  | cons byte rest ih =>
    have byteBound := byte.toNat_lt
    have low : UInt8.ofNat (byte.toNat + 256 * ofLittleEndian rest) = byte := by
      apply UInt8.toNat_inj.mp
      rw [UInt8.toNat_ofNat']
      omega
    have high : (byte.toNat + 256 * ofLittleEndian rest) / 256 = ofLittleEndian rest := by
      omega
    rw [ofLittleEndian, List.length_cons, littleEndian, low, high, ih]

theorem ofBigEndian_bigEndian (width value : Nat) :
    ofBigEndian (bigEndian width value) = value % wordCount width := by
  rw [ofBigEndian, bigEndian, List.reverse_reverse, ofLittleEndian_littleEndian]

theorem ofBigEndian_lt (bytes : Bytes) : ofBigEndian bytes < wordCount bytes.length := by
  simpa [ofBigEndian] using ofLittleEndian_lt bytes.reverse

theorem bigEndian_ofBigEndian (bytes : Bytes) :
    bigEndian bytes.length (ofBigEndian bytes) = bytes := by
  have reversed := littleEndian_ofLittleEndian bytes.reverse
  rw [List.length_reverse] at reversed
  rw [bigEndian, ofBigEndian, reversed, List.reverse_reverse]

theorem length_flatMap_littleEndian (width : Nat) (values : List Nat) :
    (values.flatMap (littleEndian width)).length = width * values.length := by
  induction values with
  | nil => rfl
  | cons value values ih =>
    rw [List.flatMap_cons, List.length_append, length_littleEndian, ih, List.length_cons,
      Nat.mul_succ, Nat.add_comm]

/-- Words written one after the other are read back in order. -/
theorem words_flatMap_littleEndian (width : Nat) (values : List Nat) (rest : Bytes)
    (bounded : ∀ value ∈ values, value < wordCount width) :
    words width values.length (values.flatMap (littleEndian width) ++ rest) = values := by
  induction values with
  | nil => rfl
  | cons value values ih =>
    have headBound := bounded value List.mem_cons_self
    have tail := ih fun other member => bounded other (List.mem_cons_of_mem value member)
    have headBytes : ((littleEndian width value) ++ (values.flatMap (littleEndian width) ++ rest)).take
        width = littleEndian width value := by
      rw [List.take_left' (length_littleEndian width value)]
    have tailBytes : ((littleEndian width value) ++ (values.flatMap (littleEndian width) ++ rest)).drop
        width = values.flatMap (littleEndian width) ++ rest := by
      rw [List.drop_left' (length_littleEndian width value)]
    rw [List.flatMap_cons, List.append_assoc, List.length_cons, words, headBytes, tailBytes, tail,
      ofLittleEndian_littleEndian, Nat.mod_eq_of_lt headBound]

/-! ## Failure messages -/

/-- A message seen from an enclosing activity: `context: message`. -/
def within (context message : Bytes) : Bytes :=
  context ++ ofString ": " ++ message

end Bytes

/-- A failure of which only the wording is known. -/
structure Failure where
  message : Bytes
deriving DecidableEq, Repr

/-- The failure as an enclosing activity reports it. -/
def Failure.within (context : Bytes) (failure : Failure) : Failure :=
  ⟨Bytes.within context failure.message⟩

end Columnar
