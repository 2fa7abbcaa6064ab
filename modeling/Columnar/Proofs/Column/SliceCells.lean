import Columnar.Proofs.Column.GuardedSlice

/-!
# Slices of cells

Appending rows of another column appends a slice of its cells, whatever way the rows take: nothing
to copy, a copy of all rows into a column without rows, and block copies in which the bits go as
whole bytes or one by one.

The bitmap of the source may have bytes to spare.  A column `Carries` cells if it is their packed
form without such bytes.
-/

namespace Columnar.Column

variable {storage : Storage} {cells : List Cell} {column : Column}

/-- The column with as many bytes of its bitmap as its rows need. -/
def tight (column : Column) : Column :=
  { column with
    validity := resize 0 (Bitmap.byteCount (column.bitIndex column.rowCount.toInt)) column.validity }

/-- The column is the packed form of the cells, but for bytes to spare in its bitmap. Texts are
found through 32-bit offsets, so those of a column have no more bytes than these can point to. -/
structure Carries (storage : Storage) (cells : List Cell) (column : Column) : Prop where
  represents : column.tight.Represents storage cells
  covers : cells ≠ [] → column.bitIndex cells.length ≤ 8 * column.validity.length
  addressable : column.Addressable storage

/-- Where the bitmap has the bits of all rows no byte is added. -/
theorem validity_tight
    (covers : column.bitIndex column.rowCount.toInt ≤ 8 * column.validity.length) :
    column.tight.validity =
      column.validity.take (Bitmap.byteCount (column.bitIndex column.rowCount.toInt)) :=
  resize_of_le 0 (Bitmap.byteCount_le_length covers)

theorem trimmed_tight
    (covers : column.bitIndex column.rowCount.toInt ≤ 8 * column.validity.length) :
    column.tight.trimmed = column.trimmed := by
  have spanEq : Bitmap.span (column.bitIndex 0) (column.bitIndex column.rowCount.toInt)
      column.tight.validity =
      Bitmap.span (column.bitIndex 0) (column.bitIndex column.rowCount.toInt)
        column.validity := by
    rw [validity_tight covers]
    exact Bytes.slice_take (Nat.le_refl _) _
  have first : column.tight.bitIndex 0 = column.bitIndex 0 := rfl
  have stop : column.tight.bitIndex column.rowCount.toInt =
      column.bitIndex column.rowCount.toInt := rfl
  have rows : column.tight.rowCount = column.rowCount := rfl
  rw [trimmed, trimmed, rows, first, stop, spanEq]
  rfl

namespace Carries

theorem rowCount_eq (carries : column.Carries storage cells) :
    column.rowCount.toInt = cells.length :=
  carries.represents.rowCount_eq

theorem bitIndex_eq (carries : column.Carries storage cells) (row : Nat) :
    column.bitIndex row = column.bitOffset.toInt.toNat + row := by
  have nonneg : 0 ≤ column.bitOffset.toInt := carries.represents.bitOffset_nonneg
  exact bitIndex_of_nonneg nonneg row

theorem covers_rows (carries : column.Carries storage cells)
    (nonempty : 0 < column.rowCount.toInt) :
    column.bitIndex column.rowCount.toInt ≤ 8 * column.validity.length := by
  have rowCountEq := carries.rowCount_eq
  rw [rowCountEq]
  apply carries.covers
  rintro rfl
  rw [rowCountEq] at nonempty
  exact Int.lt_irrefl 0 nonempty

theorem sameRows (carries : column.Carries storage cells) : column.tight.SameRows column where
  first_valid := (carries.represents.consistent carries.addressable).headerValid
  second_valid := by
    have valid := (carries.represents.consistent carries.addressable).headerValid
    exact {
      nullCount_nonneg := valid.nullCount_nonneg
      nullCount_le := valid.nullCount_le
      bitOffset_nonneg := valid.bitOffset_nonneg
      validity_covers := by
        intro nonempty
        have covers := carries.covers_rows nonempty
        rw [bitIndex] at covers
        omega }
  rowCount_eq := rfl
  nullCount_eq := rfl
  values_eq := rfl
  offsets_eq := rfl
  bit_eq := by
    intro row inside
    have index : column.tight.bitIndex row = column.bitIndex row := rfl
    have rows : column.tight.rowCount = column.rowCount := rfl
    have rowCountEq := carries.rowCount_eq
    rw [rows] at inside
    rw [index, validity_tight (carries.covers_rows (by omega)), Bitmap.bit_take]
    rw [rowCountEq, carries.bitIndex_eq, carries.bitIndex_eq, Bitmap.byteCount]
    omega

theorem consistent (carries : column.Carries storage cells) : column.Consistent storage :=
  carries.sameRows.consistent (carries.represents.consistent carries.addressable)

theorem cells_eq (carries : column.Carries storage cells) : column.cells storage = cells :=
  (carries.sameRows.cells_eq storage).trans (carries.represents.cells_eq carries.addressable)

end Carries

section Slices

variable {type : ValueType} {source target : Column} {sourceCells : List Cell} {nulls : NullIndex}
  {first last : Nat}

/-- All rows go into a column without rows as they are. -/
theorem Carries.represents_trimmed (carries : source.Carries storage sourceCells)
    (nonempty : 0 < source.rowCount.toInt) : source.trimmed.Represents storage sourceCells := by
  have represents := Column.represents_trimmed
    (carries.represents.consistent carries.addressable).headerValid nonempty carries.represents
  rw [trimmed_tight (carries.covers_rows nonempty)] at represents
  exact represents

/-- Of a target that represents cells the append makes one that represents the slice behind
them. -/
theorem Represents.appendRows (kept : type.storage ≠ .absent)
    (represents : target.Represents type.storage cells)
    (carries : source.Carries type.storage sourceCells) (counts : nulls.Counts sourceCells)
    (fits : source.SliceFits target first last) :
    ∃ longer, source.appendRows type first last nulls target = .ok longer ∧
      longer.Represents type.storage (cells ++ (sourceCells.take last).drop first) := by
  have ordered := fits.ordered
  have inside := fits.inside
  have sourceRows := carries.rowCount_eq
  have targetRows := represents.rowCount_eq
  rw [appendRows_of_kept kept]
  split
  next empty =>
    have none : (sourceCells.take last).drop first = [] := by
      apply List.drop_of_length_le
      rw [List.length_take]
      rcases empty with backwards | noRows
      · omega
      · have zero := toInt_eq_zero_iff.mpr noRows
        omega
    refine ⟨target, rfl, ?_⟩
    rw [none, List.append_nil]
    exact represents
  next someRows =>
    split
    next whole =>
      obtain ⟨all, noTargetRows⟩ := whole
      have zero := toInt_eq_zero_iff.mpr noTargetRows
      have noCells : cells = [] := List.length_eq_zero_iff.mp (by omega)
      have firstZero : first = 0 := by omega
      refine ⟨source.trimmed, rfl, ?_⟩
      rw [noCells, List.nil_append, firstZero, List.drop_zero,
        List.take_of_length_le (by omega)]
      exact carries.represents_trimmed (by omega)
    next =>
      obtain ⟨count, rfl⟩ := Nat.exists_eq_add_of_le ordered
      have bitsFit := fits.target_bits_fit
      have targetNonneg := represents.bitOffset_nonneg
      have inSource : first + count ≤ source.rowCount.toInt.toNat := by omega
      have slice := source.cellsFrom_eq_slice type.storage first inSource
      rw [Nat.add_sub_cancel_left, carries.cells_eq] at slice
      rw [← carries.cells_eq] at counts
      rw [← slice]
      exact ⟨_, rfl, represents.appendRange carries.consistent carries.addressable kept
        counts.finds.ranks (by omega) inSource (by omega)⟩

/-- Appending a slice of a column's rows reads nothing out of bounds, computes with words that do
not overflow, and appends the slice of its cells. -/
theorem appendRows?_slice (kept : type.storage ≠ .absent)
    (represents : target.Represents type.storage cells)
    (carries : source.Carries type.storage sourceCells) (counts : nulls.Counts sourceCells)
    (fits : source.SliceFits target first last)
    (valuesFit : (Cell.packed (cells ++ (sourceCells.take last).drop first)).length < 2 ^ 32) :
    ∃ longer, source.appendRows? type first last nulls target = some (.ok longer) ∧
      source.appendRows type first last nulls target = .ok longer ∧
      longer.Represents type.storage (cells ++ (sourceCells.take last).drop first) ∧
      longer.cells type.storage = cells ++ (sourceCells.take last).drop first := by
  obtain ⟨longer, appended, longerRepresents⟩ :=
    represents.appendRows kept carries counts fits
  have longerAddressable : longer.Addressable type.storage := by
    intro _
    rw [longerRepresents.values_eq]
    exact valuesFit
  have ownCounts : nulls.Counts (source.cells type.storage) := by
    rw [carries.cells_eq]
    exact counts
  refine ⟨longer, ?_, appended, longerRepresents, longerRepresents.cells_eq longerAddressable⟩
  rw [appendRows?_eq carries.consistent.sound carries.addressable ownCounts.finds represents.tight
    fits, appended]

/-- One text, whose bit is the third of its byte. -/
def oneText : Column :=
  ⟨1, 0, 2, [120], [4], [0]⟩

/-- Two texts with a null between them, from the seventh bit on, with a byte of the bitmap to
spare. -/
def spareTexts : Column :=
  ⟨3, 1, 6, [120, 121, 122], [64, 1, 255], [0, 1, 1]⟩

theorem oneText_represents : oneText.Represents .text [some [120]] where
  rowCount_eq := rfl
  nullCount_eq := rfl
  bitOffset_nonneg := by decide
  values_eq := rfl
  validity_length := rfl
  validity_bit := by
    intro row cell cellAtRow
    match row with
    | 0 => cases cellAtRow; rfl
    | row + 1 => cases cellAtRow
  offsets_eq := rfl
  holds := by simp [Storage.Holds]

theorem spareTexts_carries : spareTexts.Carries .text [some [120], none, some [121, 122]] where
  represents := {
    rowCount_eq := rfl
    nullCount_eq := rfl
    bitOffset_nonneg := by decide
    values_eq := rfl
    validity_length := rfl
    validity_bit := by
      intro row cell cellAtRow
      match row with
      | 0 => cases cellAtRow; rfl
      | 1 => cases cellAtRow; rfl
      | 2 => cases cellAtRow; rfl
      | row + 3 => cases cellAtRow
    offsets_eq := rfl
    holds := by simp [Storage.Holds] }
  covers := fun _ => by decide
  addressable := fun _ => by decide

theorem appendRows?_spareTexts :
    ValueType.string.storage ≠ .absent ∧
      oneText.Represents ValueType.string.storage [some [120]] ∧
      spareTexts.Carries ValueType.string.storage [some [120], none, some [121, 122]] ∧
      NullIndex.Counts [some [120], none, some [121, 122]] ⟨1, [0, 0, 1, 1]⟩ ∧
      spareTexts.SliceFits oneText 1 3 ∧
      (Cell.packed ([some [120]] ++ [none, some [121, 122]])).length < 2 ^ 32 ∧
      ∃ longer,
        spareTexts.appendRows? .string (1 : Nat) (3 : Nat) ⟨1, [0, 0, 1, 1]⟩ oneText =
          some (.ok longer) ∧
        spareTexts.appendRows .string (1 : Nat) (3 : Nat) ⟨1, [0, 0, 1, 1]⟩ oneText =
          .ok longer ∧
        longer.Represents ValueType.string.storage [some [120], none, some [121, 122]] ∧
        longer.cells ValueType.string.storage = [some [120], none, some [121, 122]] := by
  have kept : ValueType.string.storage ≠ .absent := by decide
  have counts : NullIndex.Counts [some [120], none, some [121, 122]] ⟨1, [0, 0, 1, 1]⟩ :=
    ⟨rfl, fun _ => by decide⟩
  have fits : spareTexts.SliceFits oneText 1 3 :=
    ⟨by decide, by decide, by decide, by decide, by decide⟩
  have valuesFit : (Cell.packed ([some [120]] ++ [none, some [121, 122]])).length < 2 ^ 32 := by
    decide
  exact ⟨kept, oneText_represents, spareTexts_carries, counts, fits, valuesFit,
    appendRows?_slice kept oneText_represents spareTexts_carries counts fits valuesFit⟩

/-! ## Texts behind the reach of offsets -/

/-- A text and two more bytes behind it. -/
def longTexts (text : Bytes) : Column :=
  ⟨2, 0, 0, text ++ [97, 98], [3], [0, UInt32.ofNat text.length]⟩

theorem bitIndex_longTexts (text : Bytes) (row : Nat) :
    (longTexts text).tight.bitIndex row = row := by
  have offset : (longTexts text).tight.bitOffset.toInt = 0 := rfl
  rw [bitIndex, offset]
  omega

theorem validity_tight_longTexts (text : Bytes) : (longTexts text).tight.validity = [3] := by
  have rows : (longTexts text).rowCount.toInt = 2 := rfl
  have position : (longTexts text).bitIndex 2 = 2 := rfl
  rw [tight, rows, position]
  rfl

theorem longTexts_represents (text : Bytes) :
    (longTexts text).tight.Represents .text [some text, some [97, 98]] where
  rowCount_eq := rfl
  nullCount_eq := rfl
  bitOffset_nonneg := Int.le_refl 0
  values_eq := by simp [tight, longTexts, Cell.packed, Cell.bytes]
  validity_length := by
    rw [validity_tight_longTexts, bitIndex_longTexts]
    show 1 = Bitmap.byteCount 2
    rfl
  validity_bit := by
    intro row cell cellAt
    rw [validity_tight_longTexts, bitIndex_longTexts]
    rcases row with _ | _ | row
    · cases cellAt
      rfl
    · cases cellAt
      rfl
    · cases cellAt
  offsets_eq := by simp [tight, longTexts, Storage.offsets, Cell.starts, Cell.bytes]
  holds := by simp [Storage.Holds]

/-- The second text starts with the last byte that an offset can point to but ends behind it, and
the word for its end is smaller than its start. -/
theorem appendRows?_longTexts_eq_none {text : Bytes} (lengthEq : text.length = 2 ^ 32 - 1) :
    (longTexts text).appendRows? .string (1 : Nat) (2 : Nat) ⟨0, []⟩ .empty = none := by
  have start : (longTexts text).offset? (1 : Nat) = some (UInt32.ofNat text.length) := rfl
  have stop : (longTexts text).textsEnd? (2 : Nat) =
      some (UInt32.ofNat (longTexts text).values.length) := rfl
  have bytes : (longTexts text).values.length = 2 ^ 32 + 1 := by
    rw [longTexts, List.length_append, lengthEq]
    rfl
  have backwards : (longTexts text).textRange? (1 : Nat) (2 : Nat) = none := by
    rw [textRange?, start, stop, lengthEq, bytes]
    rfl
  have firstRank : NullIndex.rank? ⟨0, []⟩ (1 : Nat) = some 1 := rfl
  have lastRank : NullIndex.rank? ⟨0, []⟩ (2 : Nat) = some 2 := rfl
  have offsets : (longTexts text).offsetRange? .text (1 : Nat) (2 : Nat) 0 = some [0] := rfl
  have noCopy : (longTexts text).appendRange? .text (1 : Nat) (2 : Nat) ⟨0, []⟩ .empty = none := by
    simp only [appendRange?, firstRank, lastRank, empty, List.length_nil, offsets, valueRange?,
      backwards, Option.bind_eq_bind, Option.bind_some, Option.bind_none]
  have rows : Guarded.int? ((2 : Nat) - (1 : Nat)) = some 1 := rfl
  have someRows : ¬(((2 : Nat) : Int) ≤ (1 : Nat) ∨ (longTexts text).rowCount = 0) := by
    rintro (backwards | none)
    · omega
    · have two : (2 : Int32) = 0 := none
      exact absurd two (by decide)
  have storage : ValueType.string.storage = .text := rfl
  simp only [appendRows?, storage, if_neg someRows, rows, noCopy, Option.bind_eq_bind,
    Option.bind_some, Option.bind_none]
  rfl

/-- The rows of a column with more values than offsets can point to cannot all be appended, however
short the result is. -/
theorem appendRows?_longTexts :
    let text := List.replicate (2 ^ 32 - 1) (120 : UInt8)
    Column.empty.Represents ValueType.string.storage [] ∧
      (longTexts text).tight.Represents ValueType.string.storage [some text, some [97, 98]] ∧
      (longTexts text).bitIndex 2 ≤ 8 * (longTexts text).validity.length ∧
      NullIndex.Counts [some text, some [97, 98]] ⟨0, []⟩ ∧
      (longTexts text).SliceFits .empty 1 2 ∧
      (Cell.packed ([] ++ [some [97, 98]])).length < 2 ^ 32 ∧
      (longTexts text).appendRows? .string (1 : Nat) (2 : Nat) ⟨0, []⟩ .empty = none := by
  intro text
  have lengthEq : text.length = 2 ^ 32 - 1 := List.length_replicate
  refine ⟨represents_empty _, longTexts_represents text, by decide, ⟨rfl, nofun⟩, ?_, by decide,
    appendRows?_longTexts_eq_none lengthEq⟩
  exact ⟨by decide, by decide, by decide, by decide, by decide⟩

end Slices

end Columnar.Column
